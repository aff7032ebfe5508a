import Space2.Recurrence.RecurrenceSet
import Mathlib.Data.Prod.Lex
import Mathlib.Data.Set.Basic
import Mathlib.Tactic.FinCases

/-!
# The algebra of a recurrence set

A set lists, in order, what its rules and dates include less what they exclude. The exclusion rules
are expanded without the zone of the set, so one that ends by an instant can be expanded on its own
but not within the set.
-/
namespace Space2.Recurrence
open Base Temporal

section Places

variable (deps : Deps) (options : OccurrenceOptions)

def place (p : PlainDateTime) : Except String ZonedDateTime :=
  ZonedDateTime.fromPlain deps.tzdb p options.zoneId options.disambiguation

def ZonedEntry.key (entry : ZonedEntry) : Int ×ₗ Int :=
  toLex (entry.zoned.instant.nanoseconds, entry.plain.nanoseconds)

theorem entryPrecedes_iff (left right : ZonedEntry) :
    entryPrecedes left right = true ↔ left.key < right.key := by
  unfold entryPrecedes Instant.compare PlainDateTime.compare ZonedEntry.key
  rw [Prod.Lex.toLex_lt_toLex]
  dsimp only
  split_ifs with hinstant
  · rw [decide_eq_true_iff, compareInt64_neg]
    have hne := fun h => hinstant (compareInt64_eq_zero.mpr h)
    exact ⟨.inl, fun h => h.elim id fun h => absurd h.1 hne⟩
  · have heq := compareInt64_eq_zero.mp (not_not.mp hinstant)
    rw [decide_eq_true_iff, compareInt64_neg]
    exact ⟨fun h => .inr ⟨heq, h⟩, fun h => h.elim (fun h => absurd heq h.ne) And.right⟩

theorem sortZonedEntries_perm (entries : List ZonedEntry) :
    (sortZonedEntries entries).Perm entries := tableSort_perm _ _

theorem sortZonedEntries_ascending (entries : List ZonedEntry) :
    (sortZonedEntries entries).Pairwise fun left right => left.key ≤ right.key :=
  tableSort_ascending entryPrecedes_iff entries

theorem zonedResults_eq_ok {candidates : List PlainDateTime} {result : List ZonedDateTime} :
    zonedResults deps candidates options = .ok result ↔
      ∃ entries, List.Forall₂ (fun p entry => zonedEntry deps options p = .ok entry) candidates
        entries ∧ (sortZonedEntries entries).map ZonedEntry.zoned = result := by
  unfold zonedResults
  rw [bind_eq_ok]
  simp only [pure_eq_ok, mapM_eq_ok]

theorem zonedEntry_eq_ok {p : PlainDateTime} {entry : ZonedEntry} :
    zonedEntry deps options p = .ok entry ↔
      entry.plain = p ∧ place deps options p = .ok entry.zoned := by
  unfold zonedEntry place
  rw [bind_eq_ok]
  cases entry with
  | mk plain zoned =>
    simp only [pure_eq_ok, ZonedEntry.mk.injEq]
    constructor
    · rintro ⟨zdt, hzdt, rfl, rfl⟩
      exact ⟨rfl, hzdt⟩
    · rintro ⟨rfl, hzdt⟩
      exact ⟨zoned, hzdt, rfl, rfl⟩

/-- Candidates are placed exactly when each of them is. -/
theorem zonedResults_placed {candidates : List PlainDateTime} :
    (∃ result, zonedResults deps candidates options = .ok result) ↔
      ∀ p ∈ candidates, ∃ z, place deps options p = .ok z := by
  constructor
  · rintro ⟨result, hresult⟩ p hp
    obtain ⟨entries, hentries, -⟩ := (zonedResults_eq_ok deps options).mp hresult
    obtain ⟨entry, -, hentry⟩ := (forall₂_members hentries).1 p hp
    exact ⟨entry.zoned, ((zonedEntry_eq_ok deps options).mp hentry).2⟩
  · intro h
    have hentries : ∀ p ∈ candidates, ∃ entry, zonedEntry deps options p = .ok entry := by
      intro p hp
      obtain ⟨z, hz⟩ := h p hp
      exact ⟨⟨p, z⟩, (zonedEntry_eq_ok deps options).mpr ⟨rfl, hz⟩⟩
    obtain ⟨entries, hall⟩ := mapM_total hentries
    exact ⟨_, (zonedResults_eq_ok deps options).mpr ⟨entries, mapM_eq_ok.mp hall, rfl⟩⟩

theorem mem_zonedResults {candidates : List PlainDateTime} {result : List ZonedDateTime}
    (h : zonedResults deps candidates options = .ok result) {z : ZonedDateTime} :
    z ∈ result ↔ ∃ p ∈ candidates, place deps options p = .ok z := by
  obtain ⟨entries, hentries, rfl⟩ := (zonedResults_eq_ok deps options).mp h
  obtain ⟨hleft, hright⟩ := forall₂_members hentries
  simp only [List.mem_map, (sortZonedEntries_perm entries).mem_iff]
  constructor
  · rintro ⟨entry, hentry, rfl⟩
    obtain ⟨p, hp, hok⟩ := hright entry hentry
    exact ⟨p, hp, ((zonedEntry_eq_ok deps options).mp hok).2⟩
  · rintro ⟨p, hp, hz⟩
    obtain ⟨entry, hentry, hok⟩ := hleft p hp
    have hplaced := ((zonedEntry_eq_ok deps options).mp hok).2
    exact ⟨entry, hentry, Except.ok.inj (hplaced.symm.trans hz)⟩

/-- No two of the candidates fall on one instant. -/
def Distinct (candidates : Set PlainDateTime) : Prop :=
  ∀ p ∈ candidates, ∀ q ∈ candidates, ∀ z w, place deps options p = .ok z →
    place deps options q = .ok w → z.instant = w.instant → p = q

def Ascending (result : List ZonedDateTime) : Prop :=
  result.Pairwise fun z w => z.instant.nanoseconds < w.instant.nanoseconds

theorem instant_eq {i j : Instant} (h : i.nanoseconds = j.nanoseconds) : i = j := by
  cases i
  cases j
  simpa only [Instant.mk.injEq] using h

/-- Placed candidates are in strictly ascending order exactly when no two share an instant. -/
theorem zonedResults_ascending {candidates : List PlainDateTime} (hnodup : candidates.Nodup)
    {result : List ZonedDateTime} (h : zonedResults deps candidates options = .ok result) :
    Ascending result ↔ Distinct deps options {p | p ∈ candidates} := by
  obtain ⟨entries, hentries, rfl⟩ := (zonedResults_eq_ok deps options).mp h
  obtain ⟨hleft, hright⟩ := forall₂_members hentries
  have hplain : entries.map ZonedEntry.plain = candidates := by
    clear hleft hright h hnodup
    induction hentries with
    | nil => rfl
    | cons hentry _ ih => rw [List.map_cons, ih, ((zonedEntry_eq_ok deps options).mp hentry).1]
  unfold Ascending
  rw [List.pairwise_map]
  constructor
  · intro hasc p hp q hq z w hz hw heq
    by_contra hne
    obtain ⟨e, he, heok⟩ := hleft p hp
    obtain ⟨f, hf, hfok⟩ := hleft q hq
    obtain ⟨rfl, hez⟩ := (zonedEntry_eq_ok deps options).mp heok
    obtain ⟨rfl, hfw⟩ := (zonedEntry_eq_ok deps options).mp hfok
    obtain rfl := Except.ok.inj (hez.symm.trans hz)
    obtain rfl := Except.ok.inj (hfw.symm.trans hw)
    have hinstants : ((sortZonedEntries entries).map
        fun entry => entry.zoned.instant.nanoseconds).Nodup :=
      List.pairwise_map.mpr (hasc.imp fun h => h.ne)
    have hentry := List.inj_on_of_nodup_map hinstants
      ((sortZonedEntries_perm entries).mem_iff.mpr he)
      ((sortZonedEntries_perm entries).mem_iff.mpr hf) (congrArg Instant.nanoseconds heq)
    exact hne (congrArg ZonedEntry.plain hentry)
  · intro hdistinct
    have hsortedNodup : (sortZonedEntries entries).Nodup :=
      (sortZonedEntries_perm entries).nodup_iff.mpr
        (List.Nodup.of_map ZonedEntry.plain (hplain ▸ hnodup))
    refine ((sortZonedEntries_ascending entries).and hsortedNodup).imp_of_mem ?_
    rintro e f he hf ⟨hle, hne⟩
    obtain ⟨p, hp, heok⟩ := hright e ((sortZonedEntries_perm entries).mem_iff.mp he)
    obtain ⟨q, hq, hfok⟩ := hright f ((sortZonedEntries_perm entries).mem_iff.mp hf)
    obtain ⟨rfl, hez⟩ := (zonedEntry_eq_ok deps options).mp heok
    obtain ⟨rfl, hfw⟩ := (zonedEntry_eq_ok deps options).mp hfok
    unfold ZonedEntry.key at hle
    rw [Prod.Lex.toLex_le_toLex] at hle
    rcases hle with hlt | ⟨heq, -⟩
    · exact hlt
    · have hplains := hdistinct _ hp _ hq _ _ hez hfw (instant_eq heq)
      have hzoned : e.zoned = f.zoned := by
        rw [hplains] at hez
        exact Except.ok.inj (hez.symm.trans hfw)
      exfalso
      apply hne
      cases e
      cases f
      simp only at hplains hzoned
      rw [hplains, hzoned]

end Places

section Locals

theorem mem_texts {p : PlainDateTime} {items : List PlainDateTime} :
    p.toText ∈ items.map PlainDateTime.toText ↔ p ∈ items :=
  List.mem_map_of_injective PlainDateTime.toText_injective

theorem addLocalOnce_nodup {items collected : List PlainDateTime} (h : collected.Nodup) :
    (items.foldl addLocalOnce collected).Nodup := by
  induction items generalizing collected with
  | nil => exact h
  | cons p items ih =>
    rw [List.foldl_cons]
    apply ih
    unfold addLocalOnce
    split_ifs with hseen
    · exact h
    · exact List.nodup_append.mpr ⟨h, List.nodup_singleton p, by
        rintro q hq r hr rfl
        exact hseen (mem_texts.mpr (List.mem_singleton.mp hr ▸ hq))⟩

theorem mem_addLocalOnce {items collected : List PlainDateTime} {p : PlainDateTime} :
    p ∈ items.foldl addLocalOnce collected ↔ p ∈ collected ∨ p ∈ items := by
  induction items generalizing collected with
  | nil => simp
  | cons q items ih =>
    rw [List.foldl_cons, ih, List.mem_cons, ← or_assoc]
    have hq : p ∈ addLocalOnce collected q ↔ p ∈ collected ∨ p = q := by
      unfold addLocalOnce
      split_ifs with hseen
      · exact ⟨.inl, fun h => h.elim id fun h => h ▸ mem_texts.mp hseen⟩
      · rw [List.mem_append, List.mem_singleton]
    rw [hq]

theorem sortedLocal_perm (items : List PlainDateTime) : (sortedLocal items).Perm items :=
  tableSort_perm _ _

theorem latestLocalCandidate_eq_none {candidates : List PlainDateTime} :
    latestLocalCandidate candidates = none ↔ candidates = [] := by
  cases candidates with
  | nil => simp [latestLocalCandidate]
  | cons p candidates =>
    refine iff_of_false ?_ (List.cons_ne_nil _ _)
    unfold latestLocalCandidate
    rw [List.foldl_cons]
    dsimp only
    generalize p = latest
    induction candidates generalizing latest with
    | nil => simp
    | cons q candidates ih =>
      rw [List.foldl_cons]
      dsimp only
      split_ifs
      · exact ih q
      · exact ih latest

theorem mem_applyExclusions {candidates excluded : List PlainDateTime} {p : PlainDateTime} :
    p ∈ applyExclusions candidates (excluded.map PlainDateTime.toText) ↔
      p ∈ candidates ∧ p ∉ excluded := by
  unfold applyExclusions
  rw [List.mem_filter, Bool.not_eq_true', Bool.eq_false_iff, ne_eq, List.contains_iff_mem,
    mem_texts]

end Locals

section Algebra

variable (deps : Deps) (set : RecurrenceSet) (request : OccurrenceRequest)

def OccurrenceRequest.options (request : OccurrenceRequest) : OccurrenceOptions :=
  ⟨request.zoneId, request.disambiguation.getD .reject, request.limit, none⟩

/-- What a rule lists on its own, with the start and the options of the set. -/
def expansion (rule : Rule) : Except String (List PlainDateTime) :=
  expandRuleLocal deps rule set.dtstart request.options "rrules"

def Expands (rule : Rule) : Prop := ∃ own, expansion deps set request rule = .ok own

def Yields (rule : Rule) (p : PlainDateTime) : Prop :=
  ∃ own, expansion deps set request rule = .ok own ∧ p ∈ own

def included : Set PlainDateTime :=
  {p | p ∈ set.rdates ∨ ∃ rule ∈ set.rrules, Yields deps set request rule p}

def excluded : Set PlainDateTime :=
  {p | p ∈ set.exdates ∨ ∃ rule ∈ set.exrules, Yields deps set request rule p}

def surviving : Set PlainDateTime := included deps set request \ excluded deps set request

/-- The zoned date-times of what is included and not excluded, in strictly ascending order. -/
structure Lists (result : List ZonedDateTime) : Prop where
  ascending : Ascending result
  mem : ∀ z, z ∈ result ↔ ∃ p ∈ surviving deps set request, place deps request.options p = .ok z

def Bounded (rule : Rule) : Prop := rule.count.isSome ∨ rule.untilText.isSome

/-- When the set can be listed: no exclusion rule that is expanded ends by an instant, and what
survives has instants of its own in the zone. -/
structure Listable : Prop where
  exclusions : (∀ rule ∈ set.exrules, endsByInstant rule = false) ∨ included deps set request = ∅
  placed : ∀ p ∈ surviving deps set request, ∃ z, place deps request.options p = .ok z
  distinct : Distinct deps request.options (surviving deps set request)

variable {deps set request}

/-- The name only appears in an error. -/
theorem expandRuleLocal_name {rule : Rule} {dtstart : PlainDateTime} {options : OccurrenceOptions}
    {name : String} (h : Bounded rule) :
    expandRuleLocal deps rule dtstart options name =
      expandRuleLocal deps rule dtstart options "rrules" := by
  have hgenerated : ∀ untilInstant generationRule,
      localRuleForGeneration deps rule options untilInstant = .ok generationRule →
        isBoundedRule generationRule options = true := by
    intro untilInstant generationRule hrule
    unfold localRuleForGeneration at hrule
    unfold isBoundedRule
    split at hrule
    · simp only [bind_eq_ok, pure_eq_ok] at hrule
      obtain ⟨_, _, _, _, _, _, _, _, rfl⟩ := hrule
      simp
    · split at hrule
      · obtain rfl := pure_eq_ok.mp hrule
        simp
      · obtain rfl := pure_eq_ok.mp hrule
        rcases h with h | h <;> simp [h]
  unfold expandRuleLocal
  cases validateUntilForm rule with
  | error e => rfl
  | ok u =>
    cases utcUntilInstant rule with
    | error e => rfl
    | ok untilInstant =>
      cases hrule : localRuleForGeneration deps rule options untilInstant with
      | error e => simp only [bind, Except.bind, hrule]
      | ok generationRule =>
        have hbounded := hgenerated _ _ hrule
        simp only [bind, Except.bind, hrule, assertFiniteRule, ensure, if_pos hbounded]

theorem utcUntilInstant_of_local {rule : Rule} (h : endsByInstant rule = false) :
    utcUntilInstant rule = pure none := by
  unfold endsByInstant at h
  unfold utcUntilInstant
  cases htext : rule.untilText with
  | none => rfl
  | some text =>
    rw [htext] at h
    exact if_neg (by simpa using h)

theorem utcUntilInstant_of_instant {rule : Rule} (h : endsByInstant rule = true)
    {untilInstant : Option Instant} (hok : utcUntilInstant rule = .ok untilInstant) :
    ∃ instant, untilInstant = some instant := by
  unfold endsByInstant at h
  unfold utcUntilInstant at hok
  cases htext : rule.untilText with
  | none =>
    rw [htext] at h
    cases h
  | some text =>
    simp only [htext] at h hok
    rw [if_pos h, map_eq_ok] at hok
    obtain ⟨instant, -, rfl⟩ := hok
    exact ⟨instant, rfl⟩

theorem exruleOccurrenceOptions_of_bounded {rule : Rule} (h : Bounded rule)
    (latest : PlainDateTime) :
    exruleOccurrenceOptions rule latest = ⟨none, .reject, none, none⟩ := by
  unfold exruleOccurrenceOptions
  rw [if_pos]
  rcases h with h | h <;> simp [h]

/-- A bounded exclusion rule that does not end by an instant is expanded as it is on its own. -/
theorem expandRuleLocal_exrule {rule : Rule} (hbounded : Bounded rule)
    (hlimit : request.limit = none) (hends : endsByInstant rule = false)
    (latest : PlainDateTime) :
    expandRuleLocal deps rule set.dtstart (exruleOccurrenceOptions rule latest) "exrules" =
      expansion deps set request rule := by
  have hinstant := utcUntilInstant_of_local hends
  rw [expandRuleLocal_name hbounded, exruleOccurrenceOptions_of_bounded hbounded]
  simp only [expansion, expandRuleLocal, hinstant, localRuleForGeneration, assertFiniteRule,
    isBoundedRule, OccurrenceRequest.options, hlimit, pure_bind]
  rfl

/-- An exclusion rule that ends by an instant is placed in no zone. -/
theorem expandRuleLocal_exrule_fails {rule : Rule} (hbounded : Bounded rule)
    (hexpands : Expands deps set request rule) (hends : endsByInstant rule = true)
    (latest : PlainDateTime) (own : List PlainDateTime) :
    expandRuleLocal deps rule set.dtstart (exruleOccurrenceOptions rule latest) "exrules" ≠
      .ok own := by
  obtain ⟨alone, halone⟩ := hexpands
  unfold expansion expandRuleLocal at halone
  simp only [bind_eq_ok] at halone
  obtain ⟨-, -, untilInstant, hinstant, -⟩ := halone
  obtain ⟨instant, rfl⟩ := utcUntilInstant_of_instant hends hinstant
  intro hok
  rw [exruleOccurrenceOptions_of_bounded hbounded] at hok
  unfold expandRuleLocal at hok
  simp only [bind_eq_ok] at hok
  obtain ⟨-, -, other, hother, rule', hrule', -⟩ := hok
  obtain rfl := Except.ok.inj (hother.symm.trans hinstant)
  unfold localRuleForGeneration ZonedDateTime.fromInstant ZonedDateTime.requireZoneId at hrule'
  simp only [bind_eq_ok, throw_eq_ok, false_and, exists_false] at hrule'

theorem localInclusions_eq_ok (hexpands : ∀ rule ∈ set.rrules, Expands deps set request rule) :
    ∃ inclusions, localInclusions deps set request.options = .ok inclusions ∧ inclusions.Nodup ∧
      ∀ p, p ∈ inclusions ↔ p ∈ included deps set request := by
  obtain ⟨generated, hgenerated⟩ := mapM_total hexpands
  obtain ⟨hleft, hright⟩ := flatten_members hgenerated
  refine ⟨_, bind_eq_ok.mpr ⟨generated, hgenerated, rfl⟩, ?_, ?_⟩
  · exact (sortedLocal_perm _).nodup_iff.mpr (addLocalOnce_nodup List.nodup_nil)
  · intro p
    rw [(sortedLocal_perm _).mem_iff, mem_addLocalOnce, List.mem_append]
    constructor
    · rintro (h | h | h)
      · exact absurd h List.not_mem_nil
      · obtain ⟨rule, hrule, own, hown, hp⟩ := hright p h
        exact .inr ⟨rule, hrule, own, hown, hp⟩
      · exact .inl h
    · rintro (h | ⟨rule, hrule, own, hown, hp⟩)
      · exact .inr (.inr h)
      · obtain ⟨own', hown', hall⟩ := hleft rule hrule
        obtain rfl := Except.ok.inj (hown'.symm.trans hown)
        exact .inr (.inl (hall p hp))

/-- The exclusions of a set that includes something, when they can be computed. -/
theorem localExclusionMap_eq_ok (hlimit : request.limit = none)
    (hbounded : ∀ rule ∈ set.exrules, Bounded rule)
    (hexpands : ∀ rule ∈ set.exrules, Expands deps set request rule)
    {inclusions : List PlainDateTime} (hinclusions : inclusions ≠ []) :
    (∃ exclusions, localExclusionMap deps set inclusions = .ok exclusions) ↔
      ∀ rule ∈ set.exrules, endsByInstant rule = false := by
  obtain ⟨latest, hlatest⟩ := Option.ne_none_iff_exists'.mp
    (fun h => hinclusions (latestLocalCandidate_eq_none.mp h))
  unfold localExclusionMap
  rw [hlatest]
  simp only [bind_eq_ok, pure_eq_ok, exruleExpansions]
  constructor
  · rintro ⟨_, generated, hgenerated, -⟩ rule hrule
    obtain ⟨own, -, hown⟩ := (forall₂_members (mapM_eq_ok.mp hgenerated)).1 rule hrule
    by_contra hends
    exact expandRuleLocal_exrule_fails (hbounded rule hrule) (hexpands rule hrule)
      (by simpa using hends) latest own hown
  · intro hends
    obtain ⟨generated, hgenerated⟩ := mapM_total fun rule hrule => by
      obtain ⟨own, hown⟩ := hexpands rule hrule
      exact ⟨own, (expandRuleLocal_exrule (hbounded rule hrule) hlimit (hends rule hrule)
        latest).trans hown⟩
    exact ⟨_, generated, hgenerated, rfl⟩

theorem localExclusionMap_spec (hlimit : request.limit = none)
    (hbounded : ∀ rule ∈ set.exrules, Bounded rule)
    (hends : ∀ rule ∈ set.exrules, endsByInstant rule = false)
    {inclusions : List PlainDateTime} (hinclusions : inclusions ≠ []) {exclusions : List Text}
    (h : localExclusionMap deps set inclusions = .ok exclusions) :
    ∃ all : List PlainDateTime, exclusions = all.map PlainDateTime.toText ∧
      ∀ p, p ∈ all ↔ p ∈ excluded deps set request := by
  obtain ⟨latest, hlatest⟩ := Option.ne_none_iff_exists'.mp
    (fun h => hinclusions (latestLocalCandidate_eq_none.mp h))
  unfold localExclusionMap at h
  rw [hlatest] at h
  simp only [bind_eq_ok, pure_eq_ok, exruleExpansions] at h
  obtain ⟨generated, hgenerated, rfl⟩ := h
  obtain ⟨hleft, hright⟩ := flatten_members hgenerated
  refine ⟨_, rfl, fun p => ?_⟩
  rw [List.mem_append]
  constructor
  · rintro (h | h)
    · obtain ⟨rule, hrule, own, hown, hp⟩ := hright p h
      rw [expandRuleLocal_exrule (hbounded rule hrule) hlimit (hends rule hrule)] at hown
      exact .inr ⟨rule, hrule, own, hown, hp⟩
    · exact .inl h
  · rintro (h | ⟨rule, hrule, own, hown, hp⟩)
    · exact .inr h
    · obtain ⟨own', hown', hall⟩ := hleft rule hrule
      rw [expandRuleLocal_exrule (hbounded rule hrule) hlimit (hends rule hrule)] at hown'
      obtain rfl := Except.ok.inj (hown'.symm.trans hown)
      exact .inl (hall p hp)

theorem normalizedOptions_eq_ok (hzone : request.zoneId.isSome) (hlimit : request.limit = none) :
    normalizedOptions request = .ok request.options := by
  unfold normalizedOptions
  rw [bind_eq_ok]
  exact ⟨(), ensure_eq_ok.mpr hzone, bind_eq_ok.mpr ⟨(), ensure_eq_ok.mpr (by simp [hlimit]), rfl⟩⟩

/-- An unlimited listing, once inclusions and exclusions are known. -/
theorem zonedResults_lists {inclusions : List PlainDateTime} (hnodup : inclusions.Nodup)
    (hsurviving : ∀ p, p ∈ inclusions ↔ p ∈ surviving deps set request) :
    (∃ result, zonedResults deps inclusions request.options = .ok result ∧
        Lists deps set request result) ↔
      (∀ p ∈ surviving deps set request, ∃ z, place deps request.options p = .ok z) ∧
        Distinct deps request.options (surviving deps set request) := by
  have hset : {p | p ∈ inclusions} = surviving deps set request := Set.ext hsurviving
  rw [← hset]
  constructor
  · rintro ⟨result, hresult, hlists⟩
    exact ⟨(zonedResults_placed deps request.options).mp ⟨result, hresult⟩,
      (zonedResults_ascending deps request.options hnodup hresult).mp hlists.ascending⟩
  · rintro ⟨hplaced, hdistinct⟩
    obtain ⟨result, hresult⟩ := (zonedResults_placed deps request.options).mpr hplaced
    refine ⟨result, hresult,
      (zonedResults_ascending deps request.options hnodup hresult).mpr hdistinct, fun z => ?_⟩
    rw [mem_zonedResults deps request.options hresult, ← hset]
    rfl

end Algebra

section Instances

def daily : Rule where
  freq := .daily
  interval := .integer 1
  weekStart := .mo
  count := none
  untilText := none
  bySecond := none
  byMinute := none
  byHour := none
  byDay := none
  byMonth := none
  byMonthDay := none
  byYearDay := none
  byWeekNo := none
  bySetPos := none

def utcDeps : Deps := ⟨occurrences, utcTzdb⟩
def utcRequest : OccurrenceRequest := ⟨some "UTC", none, none⟩

/-- 2025-01-01T09:00:00 -/
def newYear : PlainDateTime := ⟨1735722000000000000, by decide⟩

def threeDays : Rule := { daily with count := some (.integer 3) }

/-- Three days from the new year less the days up to the second of January. -/
def threeDaysBut (untilText : String) : RecurrenceSet :=
  ⟨newYear, [threeDays], [newYear], [], [{ daily with untilText := some untilText.toList }],
    .inr (by decide)⟩

end Instances

end Space2.Recurrence
