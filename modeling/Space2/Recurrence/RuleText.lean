import Space2.Recurrence.Rule

/-!
# The text of a recurrence rule

`toRrule` writes the parts of a rule in a fixed order and leaves out an interval
of one and a week that starts on Monday. `parseRrule` takes the parts in any
order, each key once, and hands the options it collected to `fromOptions`.
-/
namespace Space2.Recurrence
open Base

def Freq.rrule : Freq → Text
  | .secondly => "SECONDLY".toList
  | .minutely => "MINUTELY".toList
  | .hourly => "HOURLY".toList
  | .daily => "DAILY".toList
  | .weekly => "WEEKLY".toList
  | .monthly => "MONTHLY".toList
  | .yearly => "YEARLY".toList

def Day.rrule : Day → Text
  | .mo => "MO".toList
  | .tu => "TU".toList
  | .we => "WE".toList
  | .th => "TH".toList
  | .fr => "FR".toList
  | .sa => "SA".toList
  | .su => "SU".toList

namespace OptionKey

def rrule : OptionKey → Text
  | freq => "FREQ".toList
  | interval => "INTERVAL".toList
  | count => "COUNT".toList
  | untilText => "UNTIL".toList
  | bySecond => "BYSECOND".toList
  | byMinute => "BYMINUTE".toList
  | byHour => "BYHOUR".toList
  | byDay => "BYDAY".toList
  | byMonth => "BYMONTH".toList
  | byMonthDay => "BYMONTHDAY".toList
  | byYearDay => "BYYEARDAY".toList
  | byWeekNo => "BYWEEKNO".toList
  | bySetPos => "BYSETPOS".toList
  | weekStart => "WKST".toList

/-- The keys in the order in which `toRrule` writes them. -/
def order : List OptionKey :=
  [freq, interval, count, untilText, bySecond, byMinute, byHour, byDay, byMonthDay, byYearDay,
    byWeekNo, byMonth, bySetPos, weekStart]

end OptionKey

def rruleToFreq (text : Text) : Option Freq := Freq.all.find? fun freq => freq.rrule == text
def rruleToDay (text : Text) : Option Day := Day.all.find? fun day => day.rrule == text
def rruleToKey (text : Text) : Option OptionKey :=
  OptionKey.order.find? fun key => key.rrule == text

section Parse

def splitNonempty (text : Text) (separator : Char) : Except String (List Text) :=
  let parts := text.splitOn separator
  if parts.any List.isEmpty then throw "invalid RRULE" else pure parts

def parsePositiveInteger (text : Text) (name : String) : Except String Number :=
  if isDigits text then validatePositiveInteger name (.number (tonumber text))
  else throw ("invalid RRULE " ++ name)

def parseSignedInteger (text : Text) (name : String) : Except String Number :=
  if isSignedDigits text then pure (tonumber text) else throw ("invalid RRULE " ++ name)

def parseIntegerList (text : Text) (name : String) (validator : Value → Except String Number) :
    Except String (List Number) := do
  (← splitNonempty text ',').mapM fun item => do
    validator (.number (← parseSignedInteger item name))

/-- The ordinal and the two letters of `^([+-]?%d+)[A-Z][A-Z]$`. -/
def ordinalAndWeekday (item : Text) : Option (Text × Text) :=
  let ordinalText := item.take (item.length - 2)
  let weekdayText := item.drop (item.length - 2)
  if isSignedDigits ordinalText ∧ weekdayText.length = 2 ∧ weekdayText.all Char.isUpper then
    some (ordinalText, weekdayText)
  else none

def parseByDayToken (item : Text) : Except String ByDay :=
  match rruleToDay item with
  | some simple => pure (.every simple)
  | none =>
    match ordinalAndWeekday item with
    | none => throw "invalid RRULE BYDAY"
    | some (ordinalText, weekdayText) =>
      match rruleToDay weekdayText with
      | none => throw "invalid RRULE BYDAY"
      | some weekday => do
        let ordinal ← parseSignedInteger ordinalText "BYDAY"
        let ordinal ← validateNonzeroIntegerRange "BYDAY" (-53) 53 (.number ordinal)
        pure (.nth weekday ordinal)

def parseByDay (text : Text) : Except String (List ByDay) := do
  (← splitNonempty text ',').mapM parseByDayToken

def parseByMonth (text : Text) : Except String (List Number) := do
  (← splitNonempty text ',').mapM fun item => do
    validateMonth (.number (← parsePositiveInteger item "BYMONTH"))

def parseByMonthDay (text : Text) : Except String (List Number) :=
  parseIntegerList text "BYMONTHDAY" validateMonthDay

def dayValue (day : Day) : Value := .string day.name.toList

def byDayValue : ByDay → Value
  | .every weekday => dayValue weekday
  | .nth weekday ordinal => .table [] [("weekday", dayValue weekday), ("ordinal", .number ordinal)]

def numbersValue (numbers : List Number) : Value := .table (numbers.map .number) []

/-- The option a part sets, from the text of its value. -/
def parseValue (value : Text) : OptionKey → Except String Value
  | .freq =>
    match rruleToFreq value with
    | some freq => pure (.string freq.name.toList)
    | none => throw "invalid RRULE FREQ"
  | .interval => .number <$> parsePositiveInteger value "INTERVAL"
  | .count => .number <$> parsePositiveInteger value "COUNT"
  | .untilText => pure (.string value)
  | .bySecond => numbersValue <$> parseIntegerList value "BYSECOND" validateSecond
  | .byMinute => numbersValue <$> parseIntegerList value "BYMINUTE" validateMinute
  | .byHour => numbersValue <$> parseIntegerList value "BYHOUR" validateHour
  | .byDay => do
    let days ← parseByDay value
    pure (.table (days.map byDayValue) [])
  | .byMonth => numbersValue <$> parseByMonth value
  | .byMonthDay => numbersValue <$> parseByMonthDay value
  | .byYearDay => numbersValue <$> parseIntegerList value "BYYEARDAY" validateYearDay
  | .byWeekNo => numbersValue <$> parseIntegerList value "BYWEEKNO" validateWeekNo
  | .bySetPos => numbersValue <$> parseIntegerList value "BYSETPOS" validateSetPos
  | .weekStart =>
    match rruleToDay value with
    | some weekStart => pure (dayValue weekStart)
    | none => throw "invalid RRULE WKST"

structure Collected where
  seen : List Text
  value : OptionKey → Option Value

def Collected.nothing : Collected := ⟨[], fun _ => none⟩

def collectPair (collected : Collected) (pair : Text) : Except String Collected :=
  if '=' ∉ pair then throw "invalid RRULE"
  else
    let key := pair.takeWhile (· != '=')
    let value := (pair.dropWhile (· != '=')).tail
    if key = [] ∨ value = [] then throw "invalid RRULE"
    else if key ∈ collected.seen then throw "duplicate RRULE key"
    else
      match rruleToKey key with
      | none => throw "unknown RRULE key"
      | some optionKey => do
        let parsed ← parseValue value optionKey
        pure { seen := key :: collected.seen
               value := Function.update collected.value optionKey (some parsed) }

def rrulePrefix : Text := "RRULE:".toList

def parseRrule (text : Text) : Except String Rule := do
  if text.take 6 ≠ rrulePrefix then throw "invalid RRULE prefix"
  else
    let body := text.drop 6
    if body = [] then throw "invalid RRULE"
    else
      let pairs ← splitNonempty body ';'
      let collected ← pairs.foldlM collectPair .nothing
      fromOptions ⟨collected.value, []⟩

end Parse

section Write

def join (parts : List Text) (separator : Char) : Text := [separator].intercalate parts

def byDayText (entry : ByDay) : Text :=
  match entry with
  | .every weekday => weekday.rrule
  | .nth weekday ordinal => numberText ordinal ++ weekday.rrule

def serializeByDay (days : List ByDay) : Except String Text := do
  let parts ← days.mapM fun entry => do pure (byDayText (← validateByDayEntry (byDayValue entry)))
  pure (join parts ',')

def serializeIntegerList (items : List Number) (validator : Value → Except String Number) :
    Except String Text := do
  let parts ← items.mapM fun value => do pure (numberText (← validator (.number value)))
  pure (join parts ',')

def serializeByMonth (months : List Number) : Except String Text :=
  serializeIntegerList months validateMonth

def serializeByMonthDay (days : List Number) : Except String Text :=
  serializeIntegerList days validateMonthDay

/-- The value a part is written with, or that the part is left out. -/
def serializePart (rule : Rule) : OptionKey → Except String (Option Text)
  | .freq => pure (some rule.freq.rrule)
  | .interval =>
    if rule.interval.value = .finite 1 then pure none else pure (some (numberText rule.interval))
  | .count => pure (rule.count.map numberText)
  | .untilText => pure rule.untilText
  | .bySecond => rule.bySecond.mapM fun items => serializeIntegerList items validateSecond
  | .byMinute => rule.byMinute.mapM fun items => serializeIntegerList items validateMinute
  | .byHour => rule.byHour.mapM fun items => serializeIntegerList items validateHour
  | .byDay => rule.byDay.mapM serializeByDay
  | .byMonth => rule.byMonth.mapM serializeByMonth
  | .byMonthDay => rule.byMonthDay.mapM serializeByMonthDay
  | .byYearDay => rule.byYearDay.mapM fun items => serializeIntegerList items validateYearDay
  | .byWeekNo => rule.byWeekNo.mapM fun items => serializeIntegerList items validateWeekNo
  | .bySetPos => rule.bySetPos.mapM fun items => serializeIntegerList items validateSetPos
  | .weekStart => if rule.weekStart = .mo then pure none else pure (some rule.weekStart.rrule)

def partText (key : OptionKey) (value : Text) : Text := key.rrule ++ '=' :: value

/-- The rule as an options table again. -/
def Rule.options (rule : Rule) : Options where
  value
    | .freq => some (.string rule.freq.name.toList)
    | .interval => some (.number rule.interval)
    | .count => rule.count.map .number
    | .untilText => rule.untilText.map .string
    | .bySecond => rule.bySecond.map numbersValue
    | .byMinute => rule.byMinute.map numbersValue
    | .byHour => rule.byHour.map numbersValue
    | .byDay => rule.byDay.map fun days => .table (days.map byDayValue) []
    | .byMonth => rule.byMonth.map numbersValue
    | .byMonthDay => rule.byMonthDay.map numbersValue
    | .byYearDay => rule.byYearDay.map numbersValue
    | .byWeekNo => rule.byWeekNo.map numbersValue
    | .bySetPos => rule.bySetPos.map numbersValue
    | .weekStart => some (dayValue rule.weekStart)
  unknown := []

def toRrule (options : Options) : Except String Text := do
  let normalized ← fromOptions options
  let parts ← OptionKey.order.mapM fun key => do
    pure ((← serializePart normalized key).map (partText key))
  pure (rrulePrefix ++ join (parts.filterMap id) ';')

end Write

end Space2.Recurrence
