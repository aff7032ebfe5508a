import Space2.Temporal.DateTimeTexts
import Space2.Temporal.Zones
import Space2.Base.LuaValue

/-!
# Timestamps of records

A record holds the second of an instant. It is written as a text and read from a text or from a
whole number of seconds; a fraction of a second is lost. The first instant of the range lies within
a second whose start is out of range, so a record can be read that cannot be written again.
-/
namespace Space2.Temporal
open Base

namespace Instant

/-- `epoch-seconds`, the second an instant lies in -/
def epochSeconds (i : Instant) : Int := i.nanoseconds / nanosPerSecond

/-- `from-unix` without a part of a second -/
def fromUnix (seconds : Int) : Except String Instant :=
  checkedInstant (seconds * nanosPerSecond)

end Instant

/-- Where a timestamp stands. -/
structure TimestampField where
  schemaId : String
  fieldPath : String
  filePath : String

section Migrations
variable (field : TimestampField)

def contextMessage (message : String) : String :=
  "temporal migration " ++ message ++ " schema=" ++ field.schemaId ++ " field=" ++
    field.fieldPath ++ " file=" ++ field.filePath

/-- A number that is not finite does not occur in a record. -/
def timestampToInstant : Option Lua → Except String Instant
  | none => .error (contextMessage field "missing required timestamp")
  | some (.number (.finite value)) =>
    if value.den = 1 then Instant.fromUnix value.num
    else .error (contextMessage field "timestamp must be integer Unix epoch seconds")
  | some (.string text) =>
    (Instant.parse text.toList).mapError fun e =>
      contextMessage field ("malformed timestamp string: " ++ e)
  | some value =>
    .error (contextMessage field ("unsupported timestamp value type: " ++ value.typeName))

def timestampToEpochSeconds (value : Option Lua) : Except String Int := do
  let instant ← timestampToInstant field value
  pure instant.epochSeconds

def instantToTimestamp (seconds : Int) : Except String Lua := do
  let instant ← timestampToInstant field (some (.number (.finite seconds)))
  pure (.string (String.ofList instant.toText))

end Migrations

section Rereading
variable {field : TimestampField} {seconds : Int} {value : Lua}

theorem fromUnix_eq_ok {i : Instant} :
    Instant.fromUnix seconds = .ok i ↔ i.nanoseconds = seconds * nanosPerSecond := by
  unfold Instant.fromUnix checkedInstant checked
  constructor
  · intro h
    split_ifs at h with hrange
    · exact (congrArg Instant.nanoseconds (Except.ok.inj h)).symm
    · cases h
  · intro h
    have hrange : InRange (seconds * nanosPerSecond) := h ▸ i.inRange
    rw [dif_pos hrange]
    have hsame : (⟨seconds * nanosPerSecond, hrange⟩ : Instant) = i := by
      cases i
      exact (Instant.mk.injEq ..).mpr h.symm
    exact congrArg Except.ok hsame

/-- What is written is read again. -/
theorem timestampToEpochSeconds_instantToTimestamp
    (h : instantToTimestamp field seconds = .ok value) :
    timestampToEpochSeconds field (some value) = .ok seconds := by
  obtain ⟨i, hi, hvalue⟩ := bind_eq_ok.mp h
  rw [timestampToInstant, if_pos (Rat.den_intCast seconds), Rat.num_intCast] at hi
  have hnanos := fromUnix_eq_ok.mp hi
  obtain rfl := Except.ok.inj hvalue
  have hparse : Instant.parse i.toText = .ok i := i.parse_toText
  refine bind_eq_ok.mpr ⟨i, ?_, ?_⟩
  · rw [timestampToInstant, String.toList_ofList, hparse]
    rfl
  · refine congrArg Except.ok ?_
    rw [Instant.epochSeconds, hnanos]
    exact Int.mul_ediv_cancel seconds (by decide)

/-- Every second that starts within the range is written. -/
theorem instantToTimestamp_isOk (field : TimestampField) :
    (∃ value, instantToTimestamp field seconds = .ok value) ↔ InRange (seconds * nanosPerSecond) := by
  constructor
  · rintro ⟨value, h⟩
    obtain ⟨i, hi, -⟩ := bind_eq_ok.mp h
    rw [timestampToInstant, if_pos (Rat.den_intCast seconds), Rat.num_intCast] at hi
    exact fromUnix_eq_ok.mp hi ▸ i.inRange
  · intro h
    refine ⟨_, bind_eq_ok.mpr ⟨⟨seconds * nanosPerSecond, h⟩, ?_, rfl⟩⟩
    rw [timestampToInstant, if_pos (Rat.den_intCast seconds), Rat.num_intCast]
    exact fromUnix_eq_ok.mpr rfl

end Rereading

end Space2.Temporal
