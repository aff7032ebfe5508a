import Space2.Temporal.PlainDateTime

/-!
# Zoned date-times

The time zone database is not part of the program: it says which offset holds at an instant and
what a local time means. A local time that the clocks pass twice or skip is placed as the caller
chooses, or refused.
-/
namespace Space2.Temporal
open Base

inductive Disambiguation
  | reject | earliest | latest
  deriving DecidableEq, Repr

/-- The offsets of a local time in seconds, or the seconds at which the clocks skip it. -/
inductive LocalInfo
  | unique (offset : Int)
  | ambiguous (first second : Int)
  | nonexistent (firstEnd secondBegin : Int)

structure TimeZone where
  offsetAt : Int → Int
  localInfo : Int → LocalInfo

structure Tzdb where
  locateZone : String → Except String TimeZone

structure ZonedDateTime where
  instant : Instant
  zoneId : String
  deriving DecidableEq

def checkedInstant (n : Int) : Except String Instant := do
  let ⟨nanoseconds, hrange⟩ ← checked n overflow
  pure ⟨nanoseconds, hrange⟩

def resolveLocal (zone : TimeZone) (plain : PlainDateTime) (disambiguation : Disambiguation) :
    Except String Instant :=
  let atOffset (offset : Int) := checkedInstant (plain.nanoseconds - offset * nanosPerSecond)
  match zone.localInfo plain.nanoseconds, disambiguation with
  | .unique offset, _ => atOffset offset
  | _, .reject => throw "rejected ambiguous or nonexistent temporal local time"
  | .ambiguous first _, .earliest => atOffset first
  | .ambiguous _ second, .latest => atOffset second
  | .nonexistent _ secondBegin, .earliest => checkedInstant (secondBegin * nanosPerSecond)
  | .nonexistent firstEnd _, .latest => checkedInstant (firstEnd * nanosPerSecond - 1)

namespace ZonedDateTime

variable (tzdb : Tzdb)

/-- A zone id that is not a string is absent here. -/
def requireZoneId : Option String → Except String String
  | some zoneId => pure zoneId
  | none => throw "temporal zone id must be a string"

def fromPlain (plain : PlainDateTime) (zoneId : Option String) (disambiguation : Disambiguation) :
    Except String ZonedDateTime := do
  let zoneId ← requireZoneId zoneId
  let zone ← tzdb.locateZone zoneId
  let instant ← resolveLocal zone plain disambiguation
  pure ⟨instant, zoneId⟩

def fromInstant (instant : Instant) (zoneId : Option String) : Except String ZonedDateTime := do
  let zoneId ← requireZoneId zoneId
  let _ ← tzdb.locateZone zoneId
  pure ⟨instant, zoneId⟩

def fields (zdt : ZonedDateTime) : Except String CivilFields := do
  let zone ← tzdb.locateZone zdt.zoneId
  let offset := zone.offsetAt zdt.instant.nanoseconds
  let n ← checked (zdt.instant.nanoseconds + offset * nanosPerSecond) overflow
  pure (fieldsFromLocal n.1)

end ZonedDateTime

/-- A database that knows UTC alone. -/
def utcTzdb : Tzdb where
  locateZone zoneId :=
    if zoneId = "UTC" then pure ⟨fun _ => 0, fun _ => .unique 0⟩
    else throw ("invalid temporal timezone: " ++ zoneId)

end Space2.Temporal
