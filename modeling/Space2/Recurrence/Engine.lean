import Space2.Base.TableSort
import Space2.Recurrence.RuleText
import Space2.Temporal.Zones

/-!
# The recurrence engine

`occurrences` lists the date-times of a rule. Most rules are expanded bucket by
bucket: the dates of a day, a week, a month or a year that pass the selectors,
at the times the rule selects. Rules without selectors beyond plain weekdays
are stepped from their start instead.
-/
namespace Space2.Recurrence
open Base Temporal

/-- The integer a whole number stands for; an infinite one lies outside every range. -/
def toInteger (n : Number) : Int :=
  match n.value with
  | .finite q => ⌊q⌋
  | .infinite negative => if negative then -2 ^ 1024 else 2 ^ 1024
  | .nan => 0

def integers (numbers : List Number) : List Int := numbers.map toInteger

def unsupported : String := "unsupported temporal recurrence expansion"
def nilValue : String := "attempt to use a nil value"

/-- More steps than any loop below takes. -/
def loopFuel : Nat := 2 ^ 64

def outOfFuel : String := "out of fuel"

def Day.toNumber : Day → Int
  | .mo => 1
  | .tu => 2
  | .we => 3
  | .th => 4
  | .fr => 5
  | .sa => 6
  | .su => 7

namespace Rule

def intervalInteger (rule : Rule) : Int := toInteger rule.interval

end Rule

section Until

/-- `^%d%d%d%d%d%d%d%dT%d%d%d%d%d%d` and what follows it. -/
def splitCompact (text : Text) : Option (Text × Text) :=
  if text.length < 15 then none
  else if (text.take 8).all Char.isDigit && text[8]? == some 'T' &&
      ((text.drop 9).take 6).all Char.isDigit then some (text.take 15, text.drop 15)
  else none

def isCompactLocalUntil (text : Text) : Bool :=
  match splitCompact text with
  | some (_, rest) => rest == []
  | none => false

def isCompactUtcUntil (text : Text) : Bool :=
  match splitCompact text with
  | some (_, rest) => rest == ['Z']
  | none => false

def compactLocalUntilToIso (text : Text) : Text :=
  let part (start length : Nat) := (text.drop start).take length
  part 0 4 ++ '-' :: (part 4 2 ++ '-' :: (part 6 2 ++ 'T' ::
    (part 9 2 ++ ':' :: (part 11 2 ++ ':' :: part 13 2))))

def compactUtcUntilToIso (text : Text) : Text := compactLocalUntilToIso text ++ ['Z']

def parseLocalUntil (text : Text) : Except String PlainDateTime :=
  (PlainDateTime.parse (compactLocalUntilToIso text)).mapError fun _ => invalid "UNTIL"

def parseUtcUntil (text : Text) : Except String Instant := do
  ensure (isCompactUtcUntil text) (invalid "UNTIL")
  (Instant.parse (compactUtcUntilToIso text)).mapError fun _ => invalid "UNTIL"

/-- A local date-time, or none when the text is an instant. -/
def parseUntil (text : Text) : Except String (Option PlainDateTime) :=
  if isCompactLocalUntil text then some <$> parseLocalUntil text
  else if isCompactUtcUntil text then pure none
  else throw (invalid "UNTIL")

end Until

section Bounds

structure Bounds where
  limit : Option Nat
  untilDate : Option PlainDateTime

/-- The lesser of COUNT and the limit. -/
def leastLimit (rule : Rule) (limit : Option Nat) : Option Nat :=
  match rule.count, limit with
  | some count, some limit => some (min (toInteger count).toNat limit)
  | some count, none => some (toInteger count).toNat
  | none, limit => limit

def numericOccurrenceLimit (rule : Rule) (limit : Option Nat) : Except String (Option Nat) :=
  match limit with
  | some given => do
    ensure (0 < given) (invalid "limit")
    pure (leastLimit rule limit)
  | none => pure (leastLimit rule limit)

def untilBound (rule : Rule) : Except String (Option PlainDateTime) :=
  match rule.untilText with
  | none => pure none
  | some text => do
    match ← parseUntil text with
    | some date => pure (some date)
    | none => throw "unsupported temporal recurrence UNTIL: UTC UNTIL"

def occurrenceBounds (rule : Rule) (limit : Option Nat) : Except String Bounds := do
  let limit ← numericOccurrenceLimit rule limit
  let untilDate ← untilBound rule
  ensure (limit.isSome ∨ untilDate.isSome)
    "temporal recurrence expansion requires COUNT, local UNTIL, or :limit"
  pure ⟨limit, untilDate⟩

def limitReached (results : List PlainDateTime) (bounds : Bounds) : Bool :=
  match bounds.limit with
  | some limit => limit ≤ results.length
  | none => false

def withinUntil (candidate : PlainDateTime) : Option PlainDateTime → Bool
  | none => true
  | some untilDate => candidate.compare untilDate ≤ 0

def pastUntil (anchor : PlainDateTime) : Option PlainDateTime → Bool
  | none => false
  | some untilDate => anchor.compare untilDate > 0

end Bounds

section Candidates

def buildTimeCandidate (source : PlainDateTime) (year month day hour minute second : Int) :
    Option PlainDateTime :=
  (PlainDateTime.fromFields
    ⟨year, month, day, hour, minute, second, source.fields.nanosecond⟩).toOption

def buildGeneratedCandidate (dtstart : PlainDateTime) (year month day : Int) :
    Option PlainDateTime :=
  buildTimeCandidate dtstart year month day dtstart.fields.hour dtstart.fields.minute
    dtstart.fields.second

def required (candidate : Option PlainDateTime) : Except String PlainDateTime :=
  match candidate with
  | some candidate => pure candidate
  | none => throw nilValue

def compareCandidates (left right : PlainDateTime) : Bool := left.compare right < 0

def sortCandidates (candidates : List PlainDateTime) : List PlainDateTime :=
  tableSort compareCandidates candidates

def insertCandidateOnce (candidates : List PlainDateTime) (candidate : PlainDateTime) :
    List PlainDateTime :=
  if candidates.any fun existing => existing.compare candidate == 0 then candidates
  else candidates ++ [candidate]

def insertAllOnce (candidates : List PlainDateTime) : List PlainDateTime :=
  candidates.foldl insertCandidateOnce []

def appendGeneratedCandidates (results : List PlainDateTime) (bounds : Bounds)
    (dtstart : PlainDateTime) (candidates : List PlainDateTime) : List PlainDateTime :=
  (sortCandidates candidates).foldl (fun results candidate =>
    if !limitReached results bounds && !(candidate.compare dtstart < 0) &&
        withinUntil candidate bounds.untilDate then results ++ [candidate]
    else results) results

end Candidates

section Filters

def byDayAllowed (days : List ByDay) (weekday : Int) : Bool :=
  days.any fun
    | .every day => day.toNumber == weekday
    | .nth _ _ => false

def weeklyDayAllowed (rule : Rule) (weekday defaultWeekday : Int) : Bool :=
  match rule.byDay with
  | some days => byDayAllowed days weekday
  | none => weekday == defaultWeekday

def monthFilterAllowed (rule : Rule) (candidate : PlainDateTime) : Bool :=
  match rule.byMonth with
  | some months => (integers months).contains candidate.fields.month
  | none => true

def monthDayFilterAllowed (rule : Rule) (candidate : PlainDateTime) : Bool :=
  match rule.byMonthDay with
  | some days => (integers days).contains candidate.fields.day
  | none => true

def byDayFilterAllowed (rule : Rule) (candidate : PlainDateTime) : Bool :=
  match rule.byDay with
  | some days => byDayAllowed days candidate.isoWeekday
  | none => true

def candidateCalendarFiltersAllowed (rule : Rule) (candidate : PlainDateTime) : Bool :=
  monthFilterAllowed rule candidate && monthDayFilterAllowed rule candidate

def hasOrdinalByDay (days : Option (List ByDay)) : Bool :=
  (days.getD []).any fun
    | .every _ => false
    | .nth _ _ => true

def needsDuration (rule : Rule) : Bool :=
  rule.freq == .secondly || rule.freq == .minutely || rule.freq == .hourly

def hasTimeSelectors (rule : Rule) : Bool :=
  rule.bySecond.isSome || rule.byMinute.isSome || rule.byHour.isSome

def calendarFrequency (rule : Rule) : Bool := rule.freq == .monthly || rule.freq == .yearly

/-- Some step below `cycle` passes the test. -/
def someStep (test : Nat → Except String Bool) : Nat → Nat → Except String Bool
  | 0, _ => pure false
  | remaining + 1, index => do
    if ← test index then pure true else someStep test remaining (index + 1)

def assertSomeStep (cycle : Nat) (test : Nat → Except String Bool) : Except String Unit := do
  let satisfiable ← someStep test cycle 0
  ensure (satisfiable = true) unsupported

/-- How many steps of the rule's interval return to the same point of a cycle. -/
def cycleSteps (rule : Rule) (cycle : Nat) : Nat := cycle / Nat.gcd rule.intervalInteger.natAbs cycle

end Filters

section PlainDaily

def assertDailyByDaySatisfiable (rule : Rule) (dtstart : PlainDateTime) : Except String Unit :=
  match rule.byDay with
  | some days =>
    ensure (¬ (rule.intervalInteger % 7 = 0 ∧ byDayAllowed days dtstart.isoWeekday = false))
      unsupported
  | none => pure ()

/-- The step after a match is taken as well. -/
def someDailyStep (rule : Rule) : Nat → PlainDateTime → Except String Bool
  | 0, _ => pure false
  | remaining + 1, current => do
    let allowed := candidateCalendarFiltersAllowed rule current && byDayFilterAllowed rule current
    let next ← current.addDays rule.intervalInteger
    if allowed then pure true else someDailyStep rule remaining next

def assertDailyFiltersSatisfiable (rule : Rule) (dtstart : PlainDateTime) : Except String Unit :=
  if rule.byMonth.isSome || rule.byMonthDay.isSome then do
    let satisfiable ← someDailyStep rule (cycleSteps rule 146097) dtstart
    ensure (satisfiable = true) unsupported
  else pure ()

/-- Day by day, taking the days at the interval that pass. -/
def dailyByDayFrom (rule : Rule) (days : List ByDay) (bounds : Bounds) :
    Nat → Int → PlainDateTime → List PlainDateTime → Except String (List PlainDateTime)
  | 0, _, _, _ => throw outOfFuel
  | fuel + 1, dayOffset, current, results =>
    if limitReached results bounds || !withinUntil current bounds.untilDate then pure results
    else do
      let taken := dayOffset % rule.intervalInteger == 0 && byDayAllowed days current.isoWeekday &&
        candidateCalendarFiltersAllowed rule current
      let next ← current.addDays 1
      dailyByDayFrom rule days bounds fuel (dayOffset + 1) next
        (if taken then results ++ [current] else results)

def dailyFrom (rule : Rule) (bounds : Bounds) :
    Nat → PlainDateTime → List PlainDateTime → Except String (List PlainDateTime)
  | 0, _, _ => throw outOfFuel
  | fuel + 1, current, results =>
    if limitReached results bounds || !withinUntil current bounds.untilDate then pure results
    else do
      let next ← current.addDays rule.intervalInteger
      dailyFrom rule bounds fuel next
        (if candidateCalendarFiltersAllowed rule current then results ++ [current] else results)

def expandDaily (rule : Rule) (dtstart : PlainDateTime) (bounds : Bounds) :
    Except String (List PlainDateTime) :=
  match rule.byDay with
  | some days => do
    assertDailyByDaySatisfiable rule dtstart
    assertDailyFiltersSatisfiable rule dtstart
    dailyByDayFrom rule days bounds loopFuel 0 dtstart []
  | none => do
    assertDailyFiltersSatisfiable rule dtstart
    dailyFrom rule bounds loopFuel dtstart []

end PlainDaily

section PlainWeekly

def dayOfNumber (weekday : Int) : Day :=
  (Day.all.find? fun day => day.toNumber == weekday).getD .mo

/-- Whether a selected weekday of the week at `weekStart` passes; every one is computed. -/
def weekAllowed (rule : Rule) (defaultWeekday : Int) (weekStart : PlainDateTime)
    (days : List Day) : Except String Bool := do
  let allowed ← days.mapM fun day => do
    let offset := day.toNumber - defaultWeekday
    let candidate ← weekStart.addDays (if offset < 0 then offset + 7 else offset)
    pure (candidateCalendarFiltersAllowed rule candidate)
  pure (allowed.any id)

/-- The selected weekdays; an ordinal one has no number. -/
def plainDays (days : List ByDay) : Except String (List Day) :=
  days.mapM fun
    | .every day => pure day
    | .nth _ _ => throw nilValue

def assertWeeklyFiltersSatisfiable (rule : Rule) (dtstart : PlainDateTime) : Except String Unit :=
  if rule.byMonth.isSome || rule.byMonthDay.isSome then do
    let defaultWeekday := dtstart.isoWeekday
    assertSomeStep (cycleSteps rule 20871) fun index => do
      let weekStart ← dtstart.addDays (index * rule.intervalInteger * 7)
      let days ← plainDays (rule.byDay.getD [.every (dayOfNumber defaultWeekday)])
      weekAllowed rule defaultWeekday weekStart days
  else pure ()

def weeklyFrom (rule : Rule) (defaultWeekday : Int) (bounds : Bounds) :
    Nat → Int → PlainDateTime → List PlainDateTime → Except String (List PlainDateTime)
  | 0, _, _, _ => throw outOfFuel
  | fuel + 1, dayOffset, current, results =>
    if limitReached results bounds || !withinUntil current bounds.untilDate then pure results
    else do
      let taken := dayOffset / 7 % rule.intervalInteger == 0 &&
        weeklyDayAllowed rule current.isoWeekday defaultWeekday &&
          candidateCalendarFiltersAllowed rule current
      let next ← current.addDays 1
      weeklyFrom rule defaultWeekday bounds fuel (dayOffset + 1) next
        (if taken then results ++ [current] else results)

def expandWeekly (rule : Rule) (dtstart : PlainDateTime) (bounds : Bounds) :
    Except String (List PlainDateTime) := do
  assertWeeklyFiltersSatisfiable rule dtstart
  weeklyFrom rule dtstart.isoWeekday bounds loopFuel 0 dtstart []

end PlainWeekly

section PlainCalendar

/-- `index` intervals of a month or a year after the start. -/
def calendarStep (rule : Rule) (dtstart : PlainDateTime) (index : Nat) :
    Except String PlainDateTime :=
  match rule.freq with
  | .monthly => dtstart.addCalendar 0 (index * rule.intervalInteger)
  | .yearly => dtstart.addCalendar (index * rule.intervalInteger) 0
  | _ => throw unsupported

/-- The first step is the start itself. -/
def calendarAnchor (rule : Rule) (dtstart : PlainDateTime) (index : Nat) :
    Except String PlainDateTime :=
  if index = 0 then pure dtstart else calendarStep rule dtstart index

def calendarFilterCycle (rule : Rule) : Except String Nat :=
  match rule.freq with
  | .monthly =>
    if rule.byMonthDay.isSome then pure (cycleSteps rule 4800) else pure (cycleSteps rule 12)
  | .yearly => pure (cycleSteps rule 400)
  | _ => throw unsupported

def assertCalendarFiltersSatisfiable (rule : Rule) (dtstart : PlainDateTime) :
    Except String Unit :=
  if rule.byMonth.isSome || rule.byMonthDay.isSome then do
    let cycle ← calendarFilterCycle rule
    assertSomeStep cycle fun index => do
      let candidate ← calendarAnchor rule dtstart index
      pure (candidateCalendarFiltersAllowed rule candidate)
  else pure ()

def calendarFrom (rule : Rule) (dtstart : PlainDateTime) (bounds : Bounds) :
    Nat → Nat → List PlainDateTime → Except String (List PlainDateTime)
  | 0, _, _ => throw outOfFuel
  | fuel + 1, index, results =>
    if limitReached results bounds then pure results
    else do
      let candidate ← calendarAnchor rule dtstart index
      let taken :=
        if candidateCalendarFiltersAllowed rule candidate then results ++ [candidate] else results
      if !withinUntil candidate bounds.untilDate then pure results
      else calendarFrom rule dtstart bounds fuel (index + 1) taken

def expandCalendar (rule : Rule) (dtstart : PlainDateTime) (bounds : Bounds) :
    Except String (List PlainDateTime) := do
  ensure (rule.byDay = none) unsupported
  let _ ← calendarStep rule dtstart 0
  assertCalendarFiltersSatisfiable rule dtstart
  calendarFrom rule dtstart bounds loopFuel 0 []

/-- The days of a month that pass the weekday filter. -/
def monthWeekdayCandidates (rule : Rule) (dtstart : PlainDateTime) (year month : Int) :
    List PlainDateTime :=
  (List.range 31).filterMap fun day : Nat =>
    (buildGeneratedCandidate dtstart year month ((day : Int) + 1)).filter (byDayFilterAllowed rule)

def monthDayCandidates (rule : Rule) (dtstart : PlainDateTime) (year month : Int)
    (days : List Number) : List PlainDateTime :=
  (integers days).filterMap fun day =>
    (buildGeneratedCandidate dtstart year month day).filter (byDayFilterAllowed rule)

def generatedInMonth (rule : Rule) (dtstart : PlainDateTime) (year month : Int) :
    List PlainDateTime :=
  match rule.byMonthDay, rule.byDay with
  | some days, _ => monthDayCandidates rule dtstart year month days
  | none, some _ => monthWeekdayCandidates rule dtstart year month
  | none, none => []

def yearlyGeneratedMonths (rule : Rule) (dtstart : PlainDateTime) : List Int :=
  match rule.byMonth with
  | some months => integers months
  | none => [dtstart.fields.month]

def generatedCandidatesForAnchor (rule : Rule) (dtstart anchor : PlainDateTime) :
    List PlainDateTime :=
  match rule.freq with
  | .monthly =>
    if monthFilterAllowed rule anchor then
      generatedInMonth rule dtstart anchor.fields.year anchor.fields.month
    else []
  | .yearly =>
    (yearlyGeneratedMonths rule dtstart).flatMap fun month =>
      generatedInMonth rule dtstart anchor.fields.year month
  | _ => []

def generatorCycle (rule : Rule) : Except String Nat :=
  match rule.freq with
  | .monthly => pure (cycleSteps rule 4800)
  | .yearly => pure (cycleSteps rule 400)
  | _ => throw unsupported

def assertGeneratorFiltersSatisfiable (rule : Rule) (dtstart : PlainDateTime) :
    Except String Unit := do
  let cycle ← generatorCycle rule
  assertSomeStep cycle fun index => do
    let anchor ← calendarAnchor rule dtstart index
    pure !(generatedCandidatesForAnchor rule dtstart anchor).isEmpty

def calendarGeneratorFrom (rule : Rule) (dtstart : PlainDateTime) (bounds : Bounds) :
    Nat → Nat → List PlainDateTime → Except String (List PlainDateTime)
  | 0, _, _ => throw outOfFuel
  | fuel + 1, index, results =>
    if limitReached results bounds then pure results
    else do
      let anchor ← calendarAnchor rule dtstart index
      let results := appendGeneratedCandidates results bounds dtstart
        (generatedCandidatesForAnchor rule dtstart anchor)
      if pastUntil anchor bounds.untilDate then pure results
      else calendarGeneratorFrom rule dtstart bounds fuel (index + 1) results

def expandCalendarGenerator (rule : Rule) (dtstart : PlainDateTime) (bounds : Bounds) :
    Except String (List PlainDateTime) := do
  let _ ← calendarStep rule dtstart 0
  assertGeneratorFiltersSatisfiable rule dtstart
  calendarGeneratorFrom rule dtstart bounds loopFuel 0 []

end PlainCalendar

section CalendarOfSelectors

/-- The last day from 31 down to 28 that the month has within the range of date-times. -/
def daysInMonthWithin (year month : Int) : Option Int :=
  [31, 30, 29, 28].find? fun day =>
    (PlainDateTime.fromFields ⟨year, month, day, 0, 0, 0, 0⟩).toOption.isSome

def monthLengths (year : Int) : List Int :=
  [31, if isLeapYear year then 29 else 28, 31, 30, 31, 30, 31, 31, 30, 31, 30, 31]

def dayOfYear (candidate : PlainDateTime) : Int :=
  candidate.fields.day +
    ((monthLengths candidate.fields.year).take (candidate.fields.month.toNat - 1)).sum

def weekdayOffsetFromWeekStart (weekday : Int) (weekStart : Day) : Int :=
  let offset := weekday - weekStart.toNumber
  if offset < 0 then offset + 7 else offset

def startOfWeek (candidate : PlainDateTime) (weekStart : Day) : Except String PlainDateTime :=
  candidate.addDays (-weekdayOffsetFromWeekStart candidate.isoWeekday weekStart)

def weekOneStart (year : Int) (weekStart : Day) (dtstart : PlainDateTime) :
    Except String PlainDateTime := do
  let jan1 ← required (buildGeneratedCandidate dtstart year 1 1)
  let start ← startOfWeek jan1 weekStart
  if weekdayOffsetFromWeekStart jan1.isoWeekday weekStart > 3 then start.addDays 7 else pure start

def countWeeks (next : PlainDateTime) : Nat → PlainDateTime → Int → Except String Int
  | 0, _, _ => throw outOfFuel
  | fuel + 1, current, weeks =>
    if current.compare next < 0 then do
      let following ← current.addDays 7
      countWeeks next fuel following (weeks + 1)
    else pure weeks

def weeksInWeekYear (year : Int) (weekStart : Day) (dtstart : PlainDateTime) :
    Except String Int := do
  let thisStart ← weekOneStart year weekStart dtstart
  let nextStart ← weekOneStart (year + 1) weekStart dtstart
  countWeeks nextStart loopFuel thisStart 0

def numberWeek (candidateWeekStart : PlainDateTime) :
    Nat → PlainDateTime → Int → Except String Int
  | 0, _, _ => throw outOfFuel
  | fuel + 1, current, week => do
    let next ← current.addDays 7
    if next.compare candidateWeekStart ≤ 0 then numberWeek candidateWeekStart fuel next (week + 1)
    else pure week

def weekNumber (candidate : PlainDateTime) (weekStart : Day) (dtstart : PlainDateTime) :
    Except String Int := do
  let thisStart ← weekOneStart candidate.fields.year weekStart dtstart
  let nextStart ← weekOneStart (candidate.fields.year + 1) weekStart dtstart
  if candidate.compare thisStart < 0 then
    weeksInWeekYear (candidate.fields.year - 1) weekStart dtstart
  else if candidate.compare nextStart ≥ 0 then pure 1
  else do
    let candidateWeekStart ← startOfWeek candidate weekStart
    numberWeek candidateWeekStart loopFuel thisStart 1

/-- A negative number counts from the end of `total`. -/
def resolved (total value : Int) : Int := if value < 0 then total + value + 1 else value

def resolvedMonthDay (monthDays : Option Int) (value : Int) : Except String Int :=
  if value < 0 then
    match monthDays with
    | some total => pure (resolved total value)
    | none => throw nilValue
  else pure value

def resolvedMonthDayAllowed (days : List Number) (candidate : PlainDateTime) :
    Except String Bool := do
  let monthDays := daysInMonthWithin candidate.fields.year candidate.fields.month
  let allowed ← (integers days).mapM fun value => do
    let day ← resolvedMonthDay monthDays value
    pure (candidate.fields.day == day)
  pure (allowed.any id)

def resolvedYearDayAllowed (days : List Number) (candidate : PlainDateTime) : Bool :=
  (integers days).any fun value =>
    dayOfYear candidate == resolved (daysInYear candidate.fields.year) value

def resolvedWeekNoAllowed (weeks : List Number) (candidate : PlainDateTime) (weekStart : Day)
    (dtstart : PlainDateTime) : Except String Bool := do
  let totalWeeks ← weeksInWeekYear candidate.fields.year weekStart dtstart
  let candidateWeek ← weekNumber candidate weekStart dtstart
  pure ((integers weeks).any fun value => candidateWeek == resolved totalWeeks value)

/-- How many of the next `count` days fall on the weekday. -/
def countForward (weekday : Int) : Nat → PlainDateTime → Int → Except String Int
  | 0, _, ordinal => pure ordinal
  | count + 1, current, ordinal => do
    let next ← current.addDays 1
    countForward weekday count next (if current.isoWeekday = weekday then ordinal + 1 else ordinal)

def countBackward (weekday year : Int) : Nat → PlainDateTime → Int → Except String Int
  | 0, _, _ => throw outOfFuel
  | fuel + 1, remaining, ordinal =>
    if remaining.fields.year = year then do
      let next ← remaining.addDays 7
      countBackward weekday year fuel next
        (if remaining.isoWeekday = weekday then ordinal - 1 else ordinal)
    else pure ordinal

def yearOrdinals (weekday : Int) (candidate : PlainDateTime) : Except String (Int × Int) := do
  let first ← required (buildGeneratedCandidate candidate candidate.fields.year 1 1)
  let ordinal ← countForward weekday (dayOfYear candidate).toNat first 0
  let remaining ← candidate.addDays 7
  let reverseOrdinal ← countBackward weekday candidate.fields.year loopFuel remaining 0
  pure (ordinal, reverseOrdinal)

/-- How many of the days of the candidate's month fall on the weekday. -/
def countInMonth (weekday : Int) (candidate : PlainDateTime) (days : List Int) :
    Except String Int := do
  let matching ← days.mapM fun day => do
    let current ← required
      (buildGeneratedCandidate candidate candidate.fields.year candidate.fields.month day)
    pure (current.isoWeekday == weekday)
  pure (matching.count true)

def monthOrdinals (weekday : Int) (candidate : PlainDateTime) : Except String (Int × Int) := do
  let day := candidate.fields.day.toNat
  let ordinal ← countInMonth weekday candidate ((List.range day).map fun n : Nat => (n : Int) + 1)
  let last ←
    match daysInMonthWithin candidate.fields.year candidate.fields.month with
    | some last => pure last
    | none => throw nilValue
  let after := (List.range (last.toNat - day)).map fun n : Nat => last - n
  let following ← countInMonth weekday candidate after
  pure (ordinal, -following)

def candidateOrdinals (weekday : Int) (candidate : PlainDateTime) (yearly : Bool) :
    Except String (Int × Int) :=
  if yearly then yearOrdinals weekday candidate else monthOrdinals weekday candidate

def ordinalByDayAllowed (weekday : Day) (entryOrdinal : Int) (candidate : PlainDateTime)
    (yearly : Bool) : Except String Bool := do
  if candidate.isoWeekday ≠ weekday.toNumber then pure false
  else do
    let (ordinal, reverseOrdinal) ← candidateOrdinals weekday.toNumber candidate yearly
    pure (if entryOrdinal > 0 then ordinal == entryOrdinal else reverseOrdinal - 1 == entryOrdinal)

end CalendarOfSelectors

section Selectors

def dateByDayAllowed (rule : Rule) (candidate dtstart : PlainDateTime) (yearly : Bool) :
    Except String Bool :=
  match rule.byDay with
  | some entries => do
    let allowed ← entries.mapM fun
      | .nth weekday ordinal => ordinalByDayAllowed weekday (toInteger ordinal) candidate yearly
      | .every day => pure (day.toNumber == candidate.isoWeekday)
    pure (allowed.any id)
  | none => pure (rule.freq != .weekly || candidate.isoWeekday == dtstart.isoWeekday)

def defaultMonthDayAllowed (rule : Rule) (candidate : PlainDateTime) (defaultDay : Option Int) :
    Bool :=
  match defaultDay with
  | none => true
  | some defaultDay =>
    if calendarFrequency rule && rule.byMonthDay.isNone && rule.byDay.isNone &&
        rule.byYearDay.isNone && rule.byWeekNo.isNone then candidate.fields.day == defaultDay
    else true

/-- A test that runs only when those before it passed. -/
def andThen (first : Bool) (rest : Except String Bool) : Except String Bool :=
  if first then rest else pure false

def monthDaySelectorAllowed (rule : Rule) (candidate : PlainDateTime) : Except String Bool :=
  match rule.byMonthDay with
  | some days => resolvedMonthDayAllowed days candidate
  | none => pure true

def yearDaySelectorAllowed (rule : Rule) (candidate : PlainDateTime) : Bool :=
  match rule.byYearDay with
  | some days => resolvedYearDayAllowed days candidate
  | none => true

def weekNoSelectorAllowed (rule : Rule) (candidate dtstart : PlainDateTime) :
    Except String Bool :=
  match rule.byWeekNo with
  | some weeks => resolvedWeekNoAllowed weeks candidate rule.weekStart dtstart
  | none => pure true

def dateSelectorsAllowed (rule : Rule) (candidate dtstart : PlainDateTime) (yearly : Bool)
    (defaultDay : Option Int) : Except String Bool :=
  andThen (monthFilterAllowed rule candidate) do
    let monthDayAllowed ← monthDaySelectorAllowed rule candidate
    andThen (monthDayAllowed && yearDaySelectorAllowed rule candidate) do
      let weekNoAllowed ← weekNoSelectorAllowed rule candidate dtstart
      andThen (weekNoAllowed && defaultMonthDayAllowed rule candidate defaultDay)
        (dateByDayAllowed rule candidate dtstart (yearly && rule.byMonth.isNone))

def selectedValues (items : Option (List Number)) (defaultValue : Int) : List Int :=
  match items with
  | some items => integers items
  | none => [defaultValue]

def timeSelectorAllowed (items : Option (List Number)) (value : Int) : Bool :=
  match items with
  | some items => (integers items).contains value
  | none => true

def timeSelectorsAllowed (rule : Rule) (candidate : PlainDateTime) : Bool :=
  timeSelectorAllowed rule.byHour candidate.fields.hour &&
    timeSelectorAllowed rule.byMinute candidate.fields.minute &&
      timeSelectorAllowed rule.bySecond candidate.fields.second

def expandTimeCandidates (rule : Rule) (dtstart dateCandidate : PlainDateTime) :
    List PlainDateTime :=
  let date := dateCandidate.fields
  let start := dtstart.fields
  let timed :=
    (selectedValues rule.byHour start.hour).flatMap fun hour =>
      (selectedValues rule.byMinute start.minute).flatMap fun minute =>
        (selectedValues rule.bySecond start.second).filterMap fun second =>
          buildTimeCandidate dtstart date.year date.month date.day hour minute second
  sortCandidates (insertAllOnce timed)

def positionIndex (length : Nat) (position : Int) : Int :=
  if position < 0 then length + position + 1 else position

def applyBySetPos (rule : Rule) (candidates : List PlainDateTime) : List PlainDateTime :=
  let candidates := sortCandidates candidates
  match rule.bySetPos with
  | none => candidates
  | some positions =>
    let selected := (integers positions).filterMap fun position =>
      let index := positionIndex candidates.length position
      if 1 ≤ index then candidates[index.toNat - 1]? else none
    sortCandidates (insertAllOnce selected)

end Selectors

section Buckets

/-- The timed candidates of `days` days from `start`. -/
def buildDayCandidates (rule : Rule) (dtstart start : PlainDateTime) (days : Nat) (yearly : Bool)
    (defaultDay : Option Int) : Except String (List PlainDateTime) := do
  let candidates ← (List.range days).mapM fun offset : Nat => do
    let candidate ← start.addDays offset
    if ← dateSelectorsAllowed rule candidate dtstart yearly defaultDay then
      pure (expandTimeCandidates rule dtstart candidate)
    else pure []
  pure (applyBySetPos rule candidates.flatten)

def monthBucket (rule : Rule) (dtstart anchor : PlainDateTime) :
    Except String (List PlainDateTime) := do
  let fields := anchor.fields
  let start := buildGeneratedCandidate dtstart fields.year fields.month 1
  match daysInMonthWithin fields.year fields.month with
  | none => throw nilValue
  | some days => do
    let start ← required start
    buildDayCandidates rule dtstart start days.toNat false (some fields.day)

def yearBucket (rule : Rule) (dtstart anchor : PlainDateTime) :
    Except String (List PlainDateTime) := do
  let fields := anchor.fields
  let start ← required (buildGeneratedCandidate dtstart fields.year 1 1)
  buildDayCandidates rule dtstart start (daysInYear fields.year).toNat true (some fields.day)

def candidateEngineCycle (rule : Rule) : Except String Nat :=
  match rule.freq with
  | .daily => pure (cycleSteps rule 146097)
  | .weekly => pure (cycleSteps rule 20871)
  | .monthly => pure (cycleSteps rule 4800)
  | .yearly => pure (cycleSteps rule 400)
  | _ => throw unsupported

def candidateBucketCandidates (rule : Rule) (dtstart : PlainDateTime) (index : Nat) :
    Except String (List PlainDateTime) := do
  match rule.freq with
  | .daily =>
    let start ← dtstart.addDays (index * rule.intervalInteger)
    buildDayCandidates rule dtstart start 1 false none
  | .weekly =>
    let baseStart ← startOfWeek dtstart rule.weekStart
    let start ← baseStart.addDays (index * rule.intervalInteger * 7)
    buildDayCandidates rule dtstart start 7 false none
  | .monthly =>
    let anchor ← dtstart.addCalendar 0 (index * rule.intervalInteger)
    monthBucket rule dtstart anchor
  | .yearly =>
    let anchor ← dtstart.addCalendar (index * rule.intervalInteger) 0
    yearBucket rule dtstart anchor
  | _ => pure []

def assertCandidateSelectorsSatisfiable (rule : Rule) (dtstart : PlainDateTime) :
    Except String Unit := do
  let cycle ← candidateEngineCycle rule
  assertSomeStep cycle fun index => do
    let candidates ← candidateBucketCandidates rule dtstart index
    pure !candidates.isEmpty

def dailyCandidatesFrom (rule : Rule) (dtstart : PlainDateTime) (bounds : Bounds) :
    Nat → PlainDateTime → List PlainDateTime → Except String (List PlainDateTime)
  | 0, _, _ => throw outOfFuel
  | fuel + 1, current, results =>
    if limitReached results bounds || !withinUntil current bounds.untilDate then pure results
    else do
      let candidates ← buildDayCandidates rule dtstart current 1 false none
      let next ← current.addDays rule.intervalInteger
      dailyCandidatesFrom rule dtstart bounds fuel next
        (appendGeneratedCandidates results bounds dtstart candidates)

def expandDailyCandidates (rule : Rule) (dtstart : PlainDateTime) (bounds : Bounds) :
    Except String (List PlainDateTime) := do
  assertCandidateSelectorsSatisfiable rule dtstart
  dailyCandidatesFrom rule dtstart bounds loopFuel dtstart []

/-- The week after the last one is reached as well. -/
def weeklyCandidatesFrom (rule : Rule) (dtstart : PlainDateTime) (bounds : Bounds) :
    Nat → PlainDateTime → List PlainDateTime → Except String (List PlainDateTime)
  | 0, _, _ => throw outOfFuel
  | fuel + 1, start, results =>
    if limitReached results bounds then pure results
    else do
      let candidates ← buildDayCandidates rule dtstart start 7 false none
      let results := appendGeneratedCandidates results bounds dtstart candidates
      let next ← start.addDays (rule.intervalInteger * 7)
      if pastUntil start bounds.untilDate then pure results
      else weeklyCandidatesFrom rule dtstart bounds fuel next results

def expandWeeklyCandidates (rule : Rule) (dtstart : PlainDateTime) (bounds : Bounds) :
    Except String (List PlainDateTime) := do
  assertCandidateSelectorsSatisfiable rule dtstart
  let start ← startOfWeek dtstart rule.weekStart
  weeklyCandidatesFrom rule dtstart bounds loopFuel start []

/-- Months and years: the bucket of each anchor. -/
def anchoredCandidatesFrom (bucket : PlainDateTime → Except String (List PlainDateTime))
    (anchorAt : Nat → Except String PlainDateTime) (dtstart : PlainDateTime) (bounds : Bounds) :
    Nat → Nat → List PlainDateTime → Except String (List PlainDateTime)
  | 0, _, _ => throw outOfFuel
  | fuel + 1, index, results =>
    if limitReached results bounds then pure results
    else do
      let anchor ← anchorAt index
      let candidates ← bucket anchor
      let results := appendGeneratedCandidates results bounds dtstart candidates
      if pastUntil anchor bounds.untilDate then pure results
      else anchoredCandidatesFrom bucket anchorAt dtstart bounds fuel (index + 1) results

def expandMonthlyCandidates (rule : Rule) (dtstart : PlainDateTime) (bounds : Bounds) :
    Except String (List PlainDateTime) := do
  assertCandidateSelectorsSatisfiable rule dtstart
  anchoredCandidatesFrom (monthBucket rule dtstart)
    (fun index => dtstart.addCalendar 0 (index * rule.intervalInteger)) dtstart bounds loopFuel 0 []

def expandYearlyCandidates (rule : Rule) (dtstart : PlainDateTime) (bounds : Bounds) :
    Except String (List PlainDateTime) := do
  assertCandidateSelectorsSatisfiable rule dtstart
  anchoredCandidatesFrom (yearBucket rule dtstart)
    (fun index => dtstart.addCalendar (index * rule.intervalInteger) 0) dtstart bounds loopFuel 0 []

end Buckets

section SubDaily

def subDailyStepSeconds (rule : Rule) : Except String Int :=
  match rule.freq with
  | .secondly => pure rule.intervalInteger
  | .minutely => pure (rule.intervalInteger * 60)
  | .hourly => pure (rule.intervalInteger * 3600)
  | _ => throw unsupported

def exactAddSeconds (candidate : PlainDateTime) (seconds : Int) : Except String PlainDateTime := do
  let duration ← checked (seconds * nanosPerSecond) overflow
  candidate.add duration.1

/-- The candidates that pass, each once. -/
def selectedCandidates (rule : Rule) (dtstart : PlainDateTime) (candidates : List PlainDateTime) :
    Except String (List PlainDateTime) := do
  let selected ← selectM (fun candidate => do
    let dateAllowed ← dateSelectorsAllowed rule candidate dtstart false none
    pure (dateAllowed && timeSelectorsAllowed rule candidate)) candidates
  pure (insertAllOnce selected)

def buildMinuteCandidates (rule : Rule) (dtstart anchor : PlainDateTime) :
    Except String (List PlainDateTime) := do
  let fields := anchor.fields
  let candidates := (selectedValues rule.bySecond dtstart.fields.second).filterMap fun second =>
    buildTimeCandidate dtstart fields.year fields.month fields.day fields.hour fields.minute second
  let selected ← selectedCandidates rule dtstart candidates
  pure (applyBySetPos rule selected)

def buildHourCandidates (rule : Rule) (dtstart anchor : PlainDateTime) :
    Except String (List PlainDateTime) := do
  let fields := anchor.fields
  let candidates := (selectedValues rule.byMinute dtstart.fields.minute).flatMap fun minute =>
    (selectedValues rule.bySecond dtstart.fields.second).filterMap fun second =>
      buildTimeCandidate dtstart fields.year fields.month fields.day fields.hour minute second
  let selected ← selectedCandidates rule dtstart candidates
  pure (applyBySetPos rule selected)

def buildSubDailyCandidates (rule : Rule) (dtstart anchor : PlainDateTime) :
    Except String (List PlainDateTime) :=
  match rule.freq with
  | .secondly => do
    let dateAllowed ← dateSelectorsAllowed rule anchor dtstart false none
    pure (if dateAllowed && timeSelectorsAllowed rule anchor then applyBySetPos rule [anchor]
      else [])
  | .minutely => buildMinuteCandidates rule dtstart anchor
  | .hourly => buildHourCandidates rule dtstart anchor
  | _ => pure []

def hasUnsupportedSubDailyDateSelectors (rule : Rule) : Bool :=
  rule.byMonth.isSome || rule.byMonthDay.isSome || rule.byYearDay.isSome || rule.byWeekNo.isSome ||
    hasOrdinalByDay rule.byDay

def assertSubDailySatisfiable (rule : Rule) (dtstart : PlainDateTime) : Except String Unit := do
  let cycleSeconds : Nat := if rule.byDay.isSome then 604800 else 86400
  let step ← subDailyStepSeconds rule
  assertSomeStep (cycleSeconds / Nat.gcd step.natAbs cycleSeconds) fun index => do
    let anchor ← exactAddSeconds dtstart (index * step)
    let candidates ← buildSubDailyCandidates rule dtstart anchor
    pure !candidates.isEmpty

def expandSubDaily (rule : Rule) (dtstart : PlainDateTime) (bounds : Bounds) :
    Except String (List PlainDateTime) := do
  ensure (hasUnsupportedSubDailyDateSelectors rule = false) unsupported
  assertSubDailySatisfiable rule dtstart
  let step ← subDailyStepSeconds rule
  anchoredCandidatesFrom (buildSubDailyCandidates rule dtstart)
    (fun index => exactAddSeconds dtstart (index * step)) dtstart bounds loopFuel 0 []

end SubDaily

section Dispatch

def needsCandidateSelectorEngine (rule : Rule) : Bool :=
  hasTimeSelectors rule || rule.byYearDay.isSome || rule.byWeekNo.isSome || rule.bySetPos.isSome ||
    rule.weekStart != .mo || (rule.freq == .weekly && rule.byDay.isSome) ||
      hasOrdinalByDay rule.byDay || rule.byMonthDay.isSome ||
        (calendarFrequency rule && rule.byMonth.isSome)

/-- The candidate-and-selector expansion of a rule by days or longer. -/
def expandCandidates (rule : Rule) (dtstart : PlainDateTime) (bounds : Bounds) :
    Except String (List PlainDateTime) :=
  match rule.freq with
  | .daily => expandDailyCandidates rule dtstart bounds
  | .weekly => expandWeeklyCandidates rule dtstart bounds
  | .monthly => expandMonthlyCandidates rule dtstart bounds
  | .yearly => expandYearlyCandidates rule dtstart bounds
  | _ => throw unsupported

/-- The expansion of a rule that steps from its start. -/
def expandPlain (rule : Rule) (dtstart : PlainDateTime) (bounds : Bounds) :
    Except String (List PlainDateTime) :=
  match rule.freq with
  | .monthly | .yearly =>
    if rule.byMonthDay.isSome || rule.byDay.isSome then
      expandCalendarGenerator rule dtstart bounds
    else expandCalendar rule dtstart bounds
  | .daily => expandDaily rule dtstart bounds
  | .weekly => expandWeekly rule dtstart bounds
  | _ => throw unsupported

def expand (rule : Rule) (dtstart : PlainDateTime) (bounds : Bounds) :
    Except String (List PlainDateTime) :=
  if needsDuration rule then expandSubDaily rule dtstart bounds
  else if needsCandidateSelectorEngine rule then expandCandidates rule dtstart bounds
  else expandPlain rule dtstart bounds

def occurrences (input : Rule) (dtstart : PlainDateTime) (limit : Option Nat) :
    Except String (List PlainDateTime) := do
  let rule ← fromOptions input.options
  let bounds ← occurrenceBounds rule limit
  expand rule dtstart bounds

end Dispatch

end Space2.Recurrence
