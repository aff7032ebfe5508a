import Space2.Recurrence.Engine

/-!
# Recurrence sets

The date-times that the rules and dates of a set include, less those it
excludes, placed in a time zone and put in order. The engine that expands one
rule is a parameter, as it is in the program.
-/
namespace Space2.Recurrence
open Base Temporal

structure Deps where
  occurrences : Rule → PlainDateTime → Option Nat → Except String (List PlainDateTime)
  tzdb : Tzdb

structure RecurrenceSet where
  dtstart : PlainDateTime
  rrules : List Rule
  rdates : List PlainDateTime
  exdates : List PlainDateTime
  exrules : List Rule
  inclusionSources : rrules ≠ [] ∨ rdates ≠ []

structure OccurrenceOptions where
  zoneId : Option String
  disambiguation : Disambiguation
  limit : Option Nat
  localUntil : Option PlainDateTime

def RecurrenceSet.fromOptions (dtstart : PlainDateTime) (rrules : List Options)
    (rdates exdates : List PlainDateTime) (exrules : List Options) :
    Except String RecurrenceSet := do
  let rrules ← rrules.mapM Recurrence.fromOptions
  let exrules ← exrules.mapM Recurrence.fromOptions
  if h : rrules ≠ [] ∨ rdates ≠ [] then pure ⟨dtstart, rrules, rdates, exdates, exrules, h⟩
  else throw "invalid temporal recurrence-set inclusion sources"

section Rules

def isBoundedRule (rule : Rule) (options : OccurrenceOptions) : Bool :=
  rule.count.isSome || rule.untilText.isSome || options.localUntil.isSome || options.limit.isSome

def compactUntilFromPlain (plain : PlainDateTime) : Text :=
  let fields := plain.fields
  integerText fields.year ++ padded 2 fields.month ++ padded 2 fields.day ++ 'T' ::
    (padded 2 fields.hour ++ padded 2 fields.minute ++ padded 2 fields.second)

/-- A rule ends by an instant, not by a local date-time. -/
def endsByInstant (rule : Rule) : Bool :=
  match rule.untilText with
  | some text => isCompactUtcUntil text
  | none => false

def utcUntilInstant (rule : Rule) : Except String (Option Instant) :=
  match rule.untilText with
  | some text => if isCompactUtcUntil text then some <$> parseUtcUntil text else pure none
  | none => pure none

def validateUntilForm (rule : Rule) : Except String Unit :=
  match rule.untilText with
  | some text =>
    if isCompactUtcUntil text then pure ()
    else do
      let _ ← (parseUntil text).mapError fun _ => invalid "UNTIL"
  | none => pure ()

variable (deps : Deps)

/-- The rule that is expanded in place of a rule: one that ends by an instant is cut a day after
the local time of that instant. -/
def localRuleForGeneration (rule : Rule) (options : OccurrenceOptions) :
    Option Instant → Except String Rule
  | some untilInstant => do
    let zdt ← ZonedDateTime.fromInstant deps.tzdb untilInstant options.zoneId
    let localUntil ← PlainDateTime.fromFields (← zdt.fields deps.tzdb)
    let conservativeUntil ← localUntil.addDays 1
    pure { rule with untilText := some (compactUntilFromPlain conservativeUntil) }
  | none =>
    match options.localUntil, rule.untilText with
    | some localUntil, none =>
      pure { rule with untilText := some (compactUntilFromPlain localUntil) }
    | _, _ => pure rule

def isCandidateWithinUtcUntil (options : OccurrenceOptions) (untilInstant : Instant)
    (candidate : PlainDateTime) : Except String Bool := do
  let zdt ← ZonedDateTime.fromPlain deps.tzdb candidate options.zoneId options.disambiguation
  pure (zdt.instant.compare untilInstant ≤ 0)

def exruleOccurrenceOptions (rule : Rule) (latestCandidate : PlainDateTime) : OccurrenceOptions :=
  if rule.count.isSome || rule.untilText.isSome then ⟨none, .reject, none, none⟩
  else ⟨none, .reject, none, some latestCandidate⟩

def assertFiniteRule (rule : Rule) (options : OccurrenceOptions) (name : String) :
    Except String Unit :=
  ensure (isBoundedRule rule options) ("unbounded temporal recurrence-set " ++ name)

def expandRuleLocal (rule : Rule) (dtstart : PlainDateTime) (options : OccurrenceOptions)
    (name : String) : Except String (List PlainDateTime) := do
  validateUntilForm rule
  let untilInstant ← utcUntilInstant rule
  let generationRule ← localRuleForGeneration deps rule options untilInstant
  assertFiniteRule generationRule options name
  let generated ← deps.occurrences generationRule dtstart options.limit
  match untilInstant with
  | none => pure generated
  | some untilInstant => selectM (isCandidateWithinUtcUntil deps options untilInstant) generated

end Rules

section Locals

def addLocalOnce (items : List PlainDateTime) (candidate : PlainDateTime) : List PlainDateTime :=
  if candidate.toText ∈ items.map PlainDateTime.toText then items else items ++ [candidate]

def sortedLocal (items : List PlainDateTime) : List PlainDateTime :=
  tableSort (fun left right => left.compare right < 0) items

def latestLocalCandidate (candidates : List PlainDateTime) : Option PlainDateTime :=
  candidates.foldl (fun latest candidate =>
    match latest with
    | none => some candidate
    | some latest => if candidate.compare latest > 0 then some candidate else some latest) none

variable (deps : Deps) (set : RecurrenceSet)

def localInclusions (options : OccurrenceOptions) : Except String (List PlainDateTime) := do
  let generated ← set.rrules.mapM fun rule =>
    expandRuleLocal deps rule set.dtstart options "rrules"
  pure (sortedLocal ((generated.flatten ++ set.rdates).foldl addLocalOnce []))

def exruleExpansions :
    Option PlainDateTime → Except String (List (List PlainDateTime))
  | none => pure []
  | some latestCandidate =>
    set.exrules.mapM fun rule =>
      expandRuleLocal deps rule set.dtstart (exruleOccurrenceOptions rule latestCandidate) "exrules"

/-- The texts of the excluded date-times. -/
def localExclusionMap (inclusionCandidates : List PlainDateTime) : Except String (List Text) := do
  let generated ← exruleExpansions deps set (latestLocalCandidate inclusionCandidates)
  pure ((generated.flatten ++ set.exdates).map PlainDateTime.toText)

def applyExclusions (candidates : List PlainDateTime) (exclusions : List Text) :
    List PlainDateTime :=
  candidates.filter fun candidate => !exclusions.contains candidate.toText

def limited {α : Type} (items : List α) (options : OccurrenceOptions) : List α :=
  match options.limit with
  | none => items
  | some limit => items.take limit

end Locals

section Zoned

structure ZonedEntry where
  plain : PlainDateTime
  zoned : ZonedDateTime

variable (deps : Deps)

def zonedEntry (options : OccurrenceOptions) (candidate : PlainDateTime) :
    Except String ZonedEntry := do
  let zdt ← ZonedDateTime.fromPlain deps.tzdb candidate options.zoneId options.disambiguation
  pure ⟨candidate, zdt⟩

def entryPrecedes (left right : ZonedEntry) : Bool :=
  let instantOrder := left.zoned.instant.compare right.zoned.instant
  if instantOrder ≠ 0 then instantOrder < 0 else left.plain.compare right.plain < 0

def sortZonedEntries (entries : List ZonedEntry) : List ZonedEntry :=
  tableSort entryPrecedes entries

def zonedResults (candidates : List PlainDateTime) (options : OccurrenceOptions) :
    Except String (List ZonedDateTime) := do
  let entries ← candidates.mapM (zonedEntry deps options)
  pure ((sortZonedEntries entries).map ZonedEntry.zoned)

end Zoned

/-- What the caller of `occurrences` may ask for. -/
structure OccurrenceRequest where
  zoneId : Option String
  disambiguation : Option Disambiguation
  limit : Option Nat

def normalizedOptions (request : OccurrenceRequest) : Except String OccurrenceOptions := do
  ensure request.zoneId.isSome "invalid temporal recurrence-set zone-id"
  ensure (request.limit ≠ some 0) "invalid temporal recurrence-set limit"
  pure ⟨request.zoneId, request.disambiguation.getD .reject, request.limit, none⟩

def RecurrenceSet.occurrences (deps : Deps) (set : RecurrenceSet) (request : OccurrenceRequest) :
    Except String (List ZonedDateTime) := do
  let options ← normalizedOptions request
  let inclusionCandidates ← localInclusions deps set options
  let exclusions ← localExclusionMap deps set inclusionCandidates
  zonedResults deps (limited (applyExclusions inclusionCandidates exclusions) options) options

end Space2.Recurrence
