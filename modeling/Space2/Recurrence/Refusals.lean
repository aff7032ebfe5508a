import Space2.Recurrence.PlainPaths

/-!
# What an expansion refuses

An expansion that lists nothing raises an error: the rule selects nothing of a whole cycle, or a
date-time outside the range was looked for. No loop runs on, since each one moves through the range
by a day, a week, a month, a year or a second at least.
-/
namespace Space2.Recurrence
open Base Temporal

/-- Raised where a date-time outside the range was looked for. -/
def OutOfRange (e : String) : Prop :=
  e ∈ [nilValue, outsideLocalRange, overflow, "temporal calendar arithmetic overflow"]

/-- A computation that lists its result or raises what is expected of it. -/
def Raises {α : Type} (P : String → Prop) (x : Except String α) : Prop := ∀ e, x = .error e → P e

variable {rule : Rule} {dtstart candidate : PlainDateTime} {bounds : Bounds}

section Rules

variable {α β : Type} {P : String → Prop}

theorem raises_pure (a : α) : Raises P (pure a : Except String α) := by
  intro e h
  cases h

theorem raises_throw {e : String} (h : P e) : Raises P (throw e : Except String α) := by
  intro e' h'
  cases h'
  exact h

theorem raises_mono {Q : String → Prop} {x : Except String α} (h : Raises P x)
    (hPQ : ∀ e, P e → Q e) : Raises Q x := fun e he => hPQ e (h e he)

theorem raises_bind {x : Except String α} {f : α → Except String β} (hx : Raises P x)
    (hf : ∀ a, x = .ok a → Raises P (f a)) : Raises P (x >>= f) := by
  cases x with
  | error e =>
    intro e' h
    cases h
    exact hx e rfl
  | ok a => exact hf a rfl

theorem raises_ensure {c : Prop} [Decidable c] {e : String} (h : ¬ c → P e) :
    Raises P (ensure c e) := by
  intro e' h'
  obtain ⟨hc, rfl⟩ := ensure_eq_error.mp h'
  exact h hc

theorem raises_mapM {l : List α} {f : α → Except String β} (h : ∀ a ∈ l, Raises P (f a)) :
    Raises P (l.mapM f) := by
  induction l with
  | nil => exact raises_pure []
  | cons a l ih =>
    rw [List.mapM_cons]
    refine raises_bind (h a List.mem_cons_self) fun b _ => ?_
    exact raises_bind (ih fun a ha => h a (List.mem_cons_of_mem _ ha)) fun r _ => raises_pure _

theorem raises_selectM {l : List α} {test : α → Except String Bool}
    (h : ∀ a ∈ l, Raises P (test a)) : Raises P (selectM test l) := by
  induction l with
  | nil => exact raises_pure []
  | cons a l ih =>
    refine raises_bind (h a List.mem_cons_self) fun b _ => ?_
    exact raises_bind (ih fun a ha => h a (List.mem_cons_of_mem _ ha)) fun r _ => raises_pure _

theorem raises_andThen {first : Bool} {rest : Except String Bool} (h : Raises P rest) :
    Raises P (andThen first rest) := by
  unfold andThen
  split_ifs
  · exact h
  · exact raises_pure false

theorem raises_someStep {test : Nat → Except String Bool} (h : ∀ index, Raises P (test index))
    (remaining index : Nat) : Raises P (someStep test remaining index) := by
  induction remaining generalizing index with
  | zero => exact raises_pure false
  | succ remaining ih =>
    refine raises_bind (h index) fun passed _ => ?_
    split_ifs
    · exact raises_pure true
    · exact ih (index + 1)

theorem someStep_eq_false {test : Nat → Except String Bool} {remaining index : Nat}
    (h : someStep test remaining index = .ok false) :
    ∀ k, index ≤ k → k < index + remaining → test k = .ok false := by
  induction remaining generalizing index with
  | zero =>
    intro k hlow hhigh
    omega
  | succ remaining ih =>
    obtain ⟨passed, hpassed, h⟩ := bind_eq_ok.mp h
    split_ifs at h with htrue
    · cases h
    · intro k hlow hhigh
      rcases Nat.lt_or_eq_of_le hlow with hlt | rfl
      · exact ih h k (by omega) (by omega)
      · rw [hpassed, Bool.eq_false_of_not_eq_true htrue]

/-- A check over a cycle refuses when every step of it fails. -/
theorem raises_assertSomeStep {cycle : Nat} {test : Nat → Except String Bool}
    (h : ∀ index, Raises P (test index))
    (hnone : (∀ k, k < cycle → test k = .ok false) → P unsupported) :
    Raises P (assertSomeStep cycle test) := by
  refine raises_bind (raises_someStep h cycle 0) fun satisfiable hok => raises_ensure fun hfalse => ?_
  rw [Bool.eq_false_of_not_eq_true hfalse] at hok
  exact hnone fun k hk => someStep_eq_false hok k (Nat.zero_le k) (by omega)

end Rules

section Steps

theorem raises_addDays (p : PlainDateTime) (days : Int) : Raises OutOfRange (p.addDays days) := by
  intro e h
  rw [PlainDateTime.addDays_error h]
  simp [OutOfRange]

theorem raises_checked {n : Int} {message : String} (h : OutOfRange message) :
    Raises OutOfRange (checked n message) := by
  unfold checked
  split_ifs
  · exact raises_pure _
  · exact raises_throw h

theorem raises_addCalendar (p : PlainDateTime) (years months : Int) :
    Raises OutOfRange (p.addCalendar years months) := by
  refine raises_bind (raises_bind (raises_ensure ?_) fun _ _ => raises_pure _) fun date _ => ?_
  · simp [OutOfRange]
  · exact raises_bind (raises_checked (by simp [OutOfRange])) fun _ _ => raises_pure _

theorem raises_exactAddSeconds (p : PlainDateTime) (seconds : Int) :
    Raises OutOfRange (exactAddSeconds p seconds) := by
  refine raises_bind (raises_checked (by simp [OutOfRange])) fun duration _ => ?_
  exact raises_bind (raises_checked (by simp [OutOfRange])) fun _ _ => raises_pure _

theorem raises_required (candidate : Option PlainDateTime) : Raises OutOfRange (required candidate) := by
  unfold required
  split
  · exact raises_pure _
  · exact raises_throw (by simp [OutOfRange])

end Steps

section Selectors

theorem raises_startOfWeek (p : PlainDateTime) (weekStart : Day) :
    Raises OutOfRange (startOfWeek p weekStart) := raises_addDays p _

theorem raises_weekOneStart (year : Int) (weekStart : Day) (dtstart : PlainDateTime) :
    Raises OutOfRange (weekOneStart year weekStart dtstart) := by
  refine raises_bind (raises_required _) fun jan1 _ => ?_
  refine raises_bind (raises_startOfWeek jan1 weekStart) fun start _ => ?_
  split_ifs
  · exact raises_addDays start 7
  · exact raises_pure start

theorem raises_countWeeks {next : PlainDateTime} {fuel : Nat} {current : PlainDateTime}
    {weeks : Int} (hfuel : 106751 < current.dayNumber + fuel) :
    Raises OutOfRange (countWeeks next fuel current weeks) := by
  induction fuel generalizing current weeks with
  | zero =>
    have := current.dayNumber_bounds
    omega
  | succ fuel ih =>
    rw [countWeeks]
    split_ifs
    · refine raises_bind (raises_addDays current 7) fun following hfollowing => ih ?_
      have := (PlainDateTime.addDays_eq_ok.mp hfollowing).1
      omega
    · exact raises_pure weeks

theorem raises_numberWeek {target : PlainDateTime} {fuel : Nat} {current : PlainDateTime}
    {week : Int} (hfuel : 106751 < current.dayNumber + fuel) :
    Raises OutOfRange (numberWeek target fuel current week) := by
  induction fuel generalizing current week with
  | zero =>
    have := current.dayNumber_bounds
    omega
  | succ fuel ih =>
    rw [numberWeek]
    refine raises_bind (raises_addDays current 7) fun next hnext => ?_
    split_ifs
    · refine ih ?_
      have := (PlainDateTime.addDays_eq_ok.mp hnext).1
      omega
    · exact raises_pure week

theorem raises_countBackward {weekday year : Int} {fuel : Nat} {remaining : PlainDateTime}
    {ordinal : Int} (hfuel : 106751 < remaining.dayNumber + fuel) :
    Raises OutOfRange (countBackward weekday year fuel remaining ordinal) := by
  induction fuel generalizing remaining ordinal with
  | zero =>
    have := remaining.dayNumber_bounds
    omega
  | succ fuel ih =>
    rw [countBackward]
    by_cases hsame : remaining.fields.year = year
    · rw [if_pos hsame]
      refine raises_bind (raises_addDays remaining 7) fun next hnext => ih ?_
      have := (PlainDateTime.addDays_eq_ok.mp hnext).1
      omega
    · rw [if_neg hsame]
      exact raises_pure ordinal

/-- The range has fewer days than any loop has fuel. -/
theorem loopFuel_enough (p : PlainDateTime) : 106751 < p.dayNumber + loopFuel := by
  have := p.dayNumber_bounds
  unfold loopFuel
  omega

theorem raises_weeksInWeekYear (year : Int) (weekStart : Day) (dtstart : PlainDateTime) :
    Raises OutOfRange (weeksInWeekYear year weekStart dtstart) := by
  refine raises_bind (raises_weekOneStart year weekStart dtstart) fun this _ => ?_
  refine raises_bind (raises_weekOneStart (year + 1) weekStart dtstart) fun next _ => ?_
  exact raises_countWeeks (loopFuel_enough this)

theorem raises_weekNumber (candidate : PlainDateTime) (weekStart : Day) (dtstart : PlainDateTime) :
    Raises OutOfRange (weekNumber candidate weekStart dtstart) := by
  refine raises_bind (raises_weekOneStart _ weekStart dtstart) fun this _ => ?_
  refine raises_bind (raises_weekOneStart _ weekStart dtstart) fun next _ => ?_
  split_ifs
  · exact raises_weeksInWeekYear _ weekStart dtstart
  · exact raises_pure 1
  · refine raises_bind (raises_startOfWeek candidate weekStart) fun start _ => ?_
    exact raises_numberWeek (loopFuel_enough this)

theorem raises_resolvedMonthDayAllowed (days : List Number) (candidate : PlainDateTime) :
    Raises OutOfRange (resolvedMonthDayAllowed days candidate) := by
  refine raises_bind (raises_mapM fun value _ => ?_) fun allowed _ => raises_pure _
  refine raises_bind ?_ fun day _ => raises_pure _
  unfold resolvedMonthDay
  split_ifs
  · split
    · exact raises_pure _
    · exact raises_throw (by simp [OutOfRange])
  · exact raises_pure value

theorem raises_resolvedWeekNoAllowed (weeks : List Number) (candidate : PlainDateTime)
    (weekStart : Day) (dtstart : PlainDateTime) :
    Raises OutOfRange (resolvedWeekNoAllowed weeks candidate weekStart dtstart) := by
  refine raises_bind (raises_weeksInWeekYear _ weekStart dtstart) fun total _ => ?_
  exact raises_bind (raises_weekNumber candidate weekStart dtstart) fun week _ => raises_pure _

theorem raises_countForward {weekday : Int} (count : Nat) (current : PlainDateTime)
    (ordinal : Int) : Raises OutOfRange (countForward weekday count current ordinal) := by
  induction count generalizing current ordinal with
  | zero => exact raises_pure ordinal
  | succ count ih => exact raises_bind (raises_addDays current 1) fun next _ => ih next _

theorem raises_candidateOrdinals (weekday : Int) (candidate : PlainDateTime) (yearly : Bool) :
    Raises OutOfRange (candidateOrdinals weekday candidate yearly) := by
  have hcount : ∀ days, Raises OutOfRange (countInMonth weekday candidate days) := fun days =>
    raises_bind (raises_mapM fun day _ => raises_bind (raises_required _) fun current _ =>
      raises_pure _) fun matching _ => raises_pure _
  unfold candidateOrdinals
  split_ifs
  · refine raises_bind (raises_required _) fun first _ => ?_
    refine raises_bind (raises_countForward _ first 0) fun ordinal _ => ?_
    refine raises_bind (raises_addDays candidate 7) fun remaining _ => ?_
    exact raises_bind (raises_countBackward (loopFuel_enough remaining)) fun _ _ => raises_pure _
  · refine raises_bind (hcount _) fun ordinal _ => ?_
    cases daysInMonthWithin candidate.fields.year candidate.fields.month with
    | none => exact raises_bind (raises_throw (by simp [OutOfRange])) fun _ h => by cases h
    | some last =>
      refine raises_bind (raises_pure last) fun last _ => ?_
      exact raises_bind (hcount _) fun following _ => raises_pure _

theorem raises_dateByDayAllowed (yearly : Bool) :
    Raises OutOfRange (dateByDayAllowed rule candidate dtstart yearly) := by
  unfold dateByDayAllowed
  split
  · refine raises_bind (raises_mapM fun entry _ => ?_) fun allowed _ => raises_pure _
    cases entry with
    | every day => exact raises_pure _
    | nth weekday ordinal =>
      show Raises OutOfRange (ordinalByDayAllowed weekday (toInteger ordinal) candidate yearly)
      unfold ordinalByDayAllowed
      by_cases hweekday : candidate.isoWeekday ≠ weekday.toNumber
      · rw [if_pos hweekday]
        exact raises_pure false
      · rw [if_neg hweekday]
        exact raises_bind (raises_candidateOrdinals _ candidate yearly) fun _ _ => raises_pure _
  · exact raises_pure _

theorem raises_dateSelectorsAllowed (yearly : Bool) (defaultDay : Option Int) :
    Raises OutOfRange (dateSelectorsAllowed rule candidate dtstart yearly defaultDay) := by
  refine raises_andThen (raises_bind ?_ fun monthDay _ => ?_)
  · unfold monthDaySelectorAllowed
    split
    · exact raises_resolvedMonthDayAllowed _ candidate
    · exact raises_pure true
  · refine raises_andThen (raises_bind ?_ fun weekNo _ => ?_)
    · unfold weekNoSelectorAllowed
      split
      · exact raises_resolvedWeekNoAllowed _ candidate rule.weekStart dtstart
      · exact raises_pure true
    · exact raises_andThen (raises_dateByDayAllowed _)

end Selectors

section Buckets

theorem raises_buildDayCandidates (start : PlainDateTime) (days : Nat) (yearly : Bool)
    (defaultDay : Option Int) :
    Raises OutOfRange (buildDayCandidates rule dtstart start days yearly defaultDay) := by
  refine raises_bind (raises_mapM fun offset _ => ?_) fun _ _ => raises_pure _
  refine raises_bind (raises_addDays start _) fun candidate _ => ?_
  refine raises_bind (raises_dateSelectorsAllowed yearly defaultDay) fun allowed _ => ?_
  split_ifs
  · exact raises_pure _
  · exact raises_pure []

theorem raises_monthBucket (anchor : PlainDateTime) : Raises OutOfRange (monthBucket rule dtstart anchor) := by
  unfold monthBucket
  dsimp only
  split
  · exact raises_throw (by simp [OutOfRange])
  · exact raises_bind (raises_required _) fun start _ => raises_buildDayCandidates start _ _ _

theorem raises_yearBucket (anchor : PlainDateTime) : Raises OutOfRange (yearBucket rule dtstart anchor) :=
  raises_bind (raises_required _) fun start _ => raises_buildDayCandidates start _ _ _

theorem raises_candidateBucketCandidates (index : Nat) :
    Raises OutOfRange (candidateBucketCandidates rule dtstart index) := by
  unfold candidateBucketCandidates
  split
  · exact raises_bind (raises_addDays dtstart _) fun start _ =>
      raises_buildDayCandidates start _ _ _
  · refine raises_bind (raises_startOfWeek dtstart _) fun base _ => ?_
    exact raises_bind (raises_addDays base _) fun start _ => raises_buildDayCandidates start _ _ _
  · exact raises_bind (raises_addCalendar dtstart _ _) fun anchor _ => raises_monthBucket anchor
  · exact raises_bind (raises_addCalendar dtstart _ _) fun anchor _ => raises_yearBucket anchor
  · exact raises_pure []

theorem raises_selectedCandidates (candidates : List PlainDateTime) :
    Raises OutOfRange (selectedCandidates rule dtstart candidates) := by
  refine raises_bind (raises_selectM fun candidate _ => ?_) fun _ _ => raises_pure _
  exact raises_bind (raises_dateSelectorsAllowed false none) fun _ _ => raises_pure _

theorem raises_buildSubDailyCandidates (anchor : PlainDateTime) :
    Raises OutOfRange (buildSubDailyCandidates rule dtstart anchor) := by
  unfold buildSubDailyCandidates
  split
  · exact raises_bind (raises_dateSelectorsAllowed false none) fun _ _ => raises_pure _
  · exact raises_bind (raises_selectedCandidates _) fun _ _ => raises_pure _
  · exact raises_bind (raises_selectedCandidates _) fun _ _ => raises_pure _
  · exact raises_pure []

end Buckets

section Loops

theorem raises_steppedFrom {taken : Int → PlainDateTime → Bool} {step : Int} (hstep : 0 < step)
    {fuel : Nat} {index : Int} {current : PlainDateTime} {results : List PlainDateTime}
    (hfuel : 106751 < current.dayNumber + fuel) :
    Raises OutOfRange (steppedFrom taken step bounds fuel index current results) := by
  induction fuel generalizing index current results with
  | zero =>
    have := current.dayNumber_bounds
    omega
  | succ fuel ih =>
    rw [steppedFrom]
    by_cases hstop : (limitReached results bounds || !withinUntil current bounds.untilDate) = true
    · rw [if_pos hstop]
      exact raises_pure results
    · rw [if_neg hstop]
      refine raises_bind (raises_addDays current step) fun next hnext => ih ?_
      have := (PlainDateTime.addDays_eq_ok.mp hnext).1
      omega

theorem raises_dailyCandidatesFrom (hinterval : 0 < rule.intervalInteger) {fuel : Nat}
    {current : PlainDateTime} {results : List PlainDateTime}
    (hfuel : 106751 < current.dayNumber + fuel) :
    Raises OutOfRange (dailyCandidatesFrom rule dtstart bounds fuel current results) := by
  induction fuel generalizing current results with
  | zero =>
    have := current.dayNumber_bounds
    omega
  | succ fuel ih =>
    rw [dailyCandidatesFrom]
    split_ifs
    · exact raises_pure results
    · refine raises_bind (raises_buildDayCandidates current _ _ _) fun candidates _ => ?_
      refine raises_bind (raises_addDays current _) fun next hnext => ih ?_
      have := (PlainDateTime.addDays_eq_ok.mp hnext).1
      omega

theorem raises_weeklyCandidatesFrom (hinterval : 0 < rule.intervalInteger) {fuel : Nat}
    {start : PlainDateTime} {results : List PlainDateTime}
    (hfuel : 106751 < start.dayNumber + fuel) :
    Raises OutOfRange (weeklyCandidatesFrom rule dtstart bounds fuel start results) := by
  induction fuel generalizing start results with
  | zero =>
    have := start.dayNumber_bounds
    omega
  | succ fuel ih =>
    rw [weeklyCandidatesFrom]
    by_cases hlimit : limitReached results bounds = true
    · rw [if_pos hlimit]
      exact raises_pure results
    · rw [if_neg hlimit]
      refine raises_bind (raises_buildDayCandidates start _ _ _) fun candidates _ => ?_
      refine raises_bind (raises_addDays start _) fun next hnext => ?_
      split_ifs
      · exact raises_pure _
      · refine ih ?_
        have := (PlainDateTime.addDays_eq_ok.mp hnext).1
        omega

/-- Anchors that come to an end. -/
theorem raises_anchoredCandidatesFrom (last : Nat) {build : PlainDateTime → Except String (List PlainDateTime)}
    {anchorAt : Nat → Except String PlainDateTime} (hbuild : ∀ anchor, Raises OutOfRange (build anchor))
    (hanchor : ∀ k, Raises OutOfRange (anchorAt k))
    (hlast : ∀ k anchor, anchorAt k = .ok anchor → k < last) {fuel k : Nat}
    {results : List PlainDateTime} (hk : k ≤ last) (hfuel : last < fuel + k) :
    Raises OutOfRange (anchoredCandidatesFrom build anchorAt dtstart bounds fuel k results) := by
  induction fuel generalizing k results with
  | zero => omega
  | succ fuel ih =>
    rw [anchoredCandidatesFrom]
    by_cases hlimit : limitReached results bounds = true
    · rw [if_pos hlimit]
      exact raises_pure results
    · rw [if_neg hlimit]
      refine raises_bind (hanchor k) fun anchor hok => ?_
      refine raises_bind (hbuild anchor) fun candidates _ => ?_
      dsimp only
      split_ifs
      · exact raises_pure _
      · have := hlast k anchor hok
        exact ih (by omega) (by omega)

theorem raises_calendarFrom (last : Nat) (hanchor : ∀ k, Raises OutOfRange (calendarAnchor rule dtstart k))
    (hlast : ∀ k anchor, calendarAnchor rule dtstart k = .ok anchor → k < last) {fuel k : Nat}
    {results : List PlainDateTime} (hk : k ≤ last) (hfuel : last < fuel + k) :
    Raises OutOfRange (calendarFrom rule dtstart bounds fuel k results) := by
  induction fuel generalizing k results with
  | zero => omega
  | succ fuel ih =>
    rw [calendarFrom]
    by_cases hlimit : limitReached results bounds = true
    · rw [if_pos hlimit]
      exact raises_pure results
    · rw [if_neg hlimit]
      refine raises_bind (hanchor k) fun anchor hok => ?_
      by_cases hstop : (!withinUntil anchor bounds.untilDate) = true
      · rw [if_pos hstop]
        exact raises_pure results
      · rw [if_neg hstop]
        have := hlast k anchor hok
        exact ih (by omega) (by omega)

end Loops

section Paths

variable (hinterval : 0 < rule.intervalInteger)
include hinterval

/-- An interval of months or years leaves the range after fewer than this many steps. -/
theorem calendar_last (hfreq : calendarFrequency rule = true) {k : Nat} {anchor : PlainDateTime}
    (h : periodOf rule anchor = periodOf rule dtstart + k * rule.intervalInteger) : k < 8000 := by
  have hgrows : (k : Int) ≤ k * rule.intervalInteger := by
    have := Int.mul_le_mul_of_nonneg_left (show 1 ≤ rule.intervalInteger by omega)
      (show 0 ≤ (k : Int) by omega)
    omega
  have hstart := dtstart.year_bounds
  have hend := anchor.year_bounds
  have hmonth := dtstart.date_valid.month
  have hmonth' := anchor.date_valid.month
  unfold calendarFrequency at hfreq
  unfold periodOf at h
  cases hcase : rule.freq with
  | monthly =>
    simp only [hcase] at h
    omega
  | yearly =>
    simp only [hcase] at h
    omega
  | _ => simp [hcase] at hfreq

end Paths

section Unsatisfiable

/-- The number of buckets after which the calendar, or the week, is at the same point again. -/
def cycleBuckets (rule : Rule) : Nat :=
  let cycleSeconds : Nat := if rule.byDay.isSome then 604800 else 86400
  match rule.freq with
  | .secondly => cycleSeconds / Nat.gcd rule.intervalInteger.natAbs cycleSeconds
  | .minutely => cycleSeconds / Nat.gcd (rule.intervalInteger * 60).natAbs cycleSeconds
  | .hourly => cycleSeconds / Nat.gcd (rule.intervalInteger * 3600).natAbs cycleSeconds
  | .daily => cycleSteps rule 146097
  | .weekly => cycleSteps rule 20871
  | .monthly => cycleSteps rule 4800
  | .yearly => cycleSteps rule 400

/-- A rule that is not expanded: by hours or shorter with selectors of dates beyond weekdays, or one
that selects nothing of a whole cycle. -/
def Unsupported (rule : Rule) (dtstart : PlainDateTime) : Prop :=
  (needsDuration rule = true ∧ hasUnsupportedSubDailyDateSelectors rule = true) ∨
    ∀ k < cycleBuckets rule, bucketSet rule dtstart k = ∅

def Refused (rule : Rule) (dtstart : PlainDateTime) (e : String) : Prop :=
  OutOfRange e ∨ e = unsupported ∧ Unsupported rule dtstart

theorem refused_of_raises {α : Type} {x : Except String α} (h : Raises OutOfRange x) :
    Raises (Refused rule dtstart) x := raises_mono h fun _ => .inl

theorem empty_of_isEmpty {candidates : List PlainDateTime} {S : Set PlainDateTime}
    (hmem : ∀ x, x ∈ candidates ↔ x ∈ S) (h : (!candidates.isEmpty) = false) : S = ∅ := by
  rw [Set.eq_empty_iff_forall_notMem]
  intro x hx
  have hnil : candidates = [] := by simpa using h
  exact List.not_mem_nil (hnil ▸ (hmem x).mpr hx)

theorem candidateBucket_spec (hmonth : rule.byMonth = none → defaultsMonth rule = false)
    (hduration : needsDuration rule = false) {k : Nat} {candidates : List PlainDateTime}
    (h : candidateBucketCandidates rule dtstart k = .ok candidates) :
    ∀ x, x ∈ candidates ↔ x ∈ bucketSet rule dtstart k := by
  unfold candidateBucketCandidates at h
  split at h
  · next hfreq =>
    obtain ⟨start, hstart, h⟩ := bind_eq_ok.mp h
    obtain ⟨hday, htime⟩ := PlainDateTime.addDays_eq_ok.mp hstart
    exact (dayBucket_spec hfreq hday htime h).2
  · next hfreq =>
    simp only [bind_eq_ok] at h
    obtain ⟨base, hbase, start, hstart, h⟩ := h
    obtain ⟨hbaseDay, hbaseTime⟩ := startOfWeek_firstWeek hbase
    obtain ⟨hday, htime⟩ := PlainDateTime.addDays_eq_ok.mp hstart
    rw [hbaseDay, mul_assoc] at hday
    exact (weekBucket_spec hfreq hday (htime.trans hbaseTime) h).2
  · next hfreq =>
    obtain ⟨anchor, hanchor, h⟩ := bind_eq_ok.mp h
    exact (monthBucket_spec hfreq hanchor h).2
  · next hfreq =>
    obtain ⟨anchor, hanchor, h⟩ := bind_eq_ok.mp h
    exact (yearBucket_spec hfreq hmonth hanchor h).2
  · next hdaily hweekly hmonthly hyearly =>
    exfalso
    unfold needsDuration at hduration
    cases hfreq : rule.freq <;> simp_all

theorem raises_assertCandidateSelectorsSatisfiable
    (hmonth : rule.byMonth = none → defaultsMonth rule = false)
    (hduration : needsDuration rule = false) :
    Raises (Refused rule dtstart) (assertCandidateSelectorsSatisfiable rule dtstart) := by
  have hcycle : candidateEngineCycle rule = .ok (cycleBuckets rule) := by
    unfold candidateEngineCycle cycleBuckets
    unfold needsDuration at hduration
    cases hfreq : rule.freq <;> simp [hfreq] at hduration ⊢ <;> rfl
  unfold assertCandidateSelectorsSatisfiable
  rw [hcycle]
  refine raises_assertSomeStep (fun index => refused_of_raises ?_) fun hnone => .inr ⟨rfl, .inr ?_⟩
  · exact raises_bind (raises_candidateBucketCandidates index) fun _ _ => raises_pure _
  · intro k hk
    obtain ⟨candidates, hcandidates, hempty⟩ := bind_eq_ok.mp (hnone k hk)
    exact empty_of_isEmpty (candidateBucket_spec hmonth hduration hcandidates) (pure_eq_ok.mp hempty)

end Unsatisfiable

section Expansions

variable (hinterval : 0 < rule.intervalInteger)
include hinterval

theorem raises_expandCandidates (hmonth : rule.byMonth = none → defaultsMonth rule = false)
    (hduration : needsDuration rule = false) :
    Raises (Refused rule dtstart) (expandCandidates rule dtstart bounds) := by
  have hchecked : Raises (Refused rule dtstart)
      (assertCandidateSelectorsSatisfiable rule dtstart) :=
    raises_assertCandidateSelectorsSatisfiable hmonth hduration
  unfold expandCandidates
  split
  · exact raises_bind hchecked fun _ _ => refused_of_raises
      (raises_dailyCandidatesFrom hinterval (loopFuel_enough dtstart))
  · refine raises_bind hchecked fun _ _ => refused_of_raises ?_
    exact raises_bind (raises_startOfWeek dtstart _) fun start _ =>
      raises_weeklyCandidatesFrom hinterval (loopFuel_enough start)
  · next hfreq =>
    refine raises_bind hchecked fun _ _ => refused_of_raises
      (raises_anchoredCandidatesFrom 8000 raises_monthBucket
        (fun k => raises_addCalendar dtstart _ _) (fun k anchor hanchor => ?_)
        (Nat.zero_le _) (by unfold loopFuel; omega))
    have hperiod : periodOf rule anchor = periodOf rule dtstart + k * rule.intervalInteger := by
      simp only [periodOf, hfreq]
      have := (PlainDateTime.addCalendar_eq_ok hanchor).1
      omega
    exact calendar_last hinterval (by simp [calendarFrequency, hfreq]) hperiod
  · next hfreq =>
    refine raises_bind hchecked fun _ _ => refused_of_raises
      (raises_anchoredCandidatesFrom 8000 raises_yearBucket
        (fun k => raises_addCalendar dtstart _ _) (fun k anchor hanchor => ?_)
        (Nat.zero_le _) (by unfold loopFuel; omega))
    have hperiod : periodOf rule anchor = periodOf rule dtstart + k * rule.intervalInteger := by
      simp only [periodOf, hfreq]
      exact (addYears_eq_ok hanchor).1
    exact calendar_last hinterval (by simp [calendarFrequency, hfreq]) hperiod
  · next hdaily hweekly hmonthly hyearly =>
    exfalso
    unfold needsDuration at hduration
    cases hfreq : rule.freq <;> simp_all

theorem subDailyStep_pos {step : Int} (h : subDailyStepSeconds rule = .ok step) : 0 < step := by
  unfold subDailyStepSeconds at h
  split at h
  · obtain rfl := pure_eq_ok.mp h
    exact hinterval
  · obtain rfl := pure_eq_ok.mp h
    omega
  · obtain rfl := pure_eq_ok.mp h
    omega
  · cases h

omit hinterval in
theorem subDaily_cycle {step : Int} (h : subDailyStepSeconds rule = .ok step) :
    (if rule.byDay.isSome then 604800 else 86400) /
      Nat.gcd step.natAbs (if rule.byDay.isSome then 604800 else 86400) = cycleBuckets rule := by
  unfold subDailyStepSeconds at h
  unfold cycleBuckets
  cases hfreq : rule.freq with
  | secondly | minutely | hourly =>
    rw [hfreq] at h
    obtain rfl := pure_eq_ok.mp h
    rfl
  | _ =>
    rw [hfreq] at h
    cases h

theorem raises_expandSubDaily (hduration : needsDuration rule = true) :
    Raises (Refused rule dtstart) (expandSubDaily rule dtstart bounds) := by
  obtain ⟨step, hstep⟩ : ∃ step, subDailyStepSeconds rule = .ok step := by
    unfold needsDuration at hduration
    unfold subDailyStepSeconds
    cases hfreq : rule.freq <;> simp [hfreq] at hduration ⊢
  unfold expandSubDaily assertSubDailySatisfiable
  rw [hstep]
  refine raises_bind (raises_ensure fun hunsupported => .inr ⟨rfl, .inl ⟨hduration, ?_⟩⟩)
    fun _ hsupported => ?_
  · simpa using hunsupported
  rw [ensure_eq_ok] at hsupported
  refine raises_bind (raises_assertSomeStep (fun index => refused_of_raises ?_)
    fun hnone => .inr ⟨rfl, .inr ?_⟩) fun _ _ => refused_of_raises ?_
  · refine raises_bind (raises_exactAddSeconds dtstart _) fun anchor _ => ?_
    exact raises_bind (raises_buildSubDailyCandidates anchor) fun _ _ => raises_pure _
  · intro k hk
    rw [← subDaily_cycle hstep] at hk
    have hfalse := hnone k hk
    simp only [bind_eq_ok, pure_eq_ok] at hfalse
    obtain ⟨anchor, hanchor, candidates, hcandidates, hempty⟩ := hfalse
    exact empty_of_isEmpty
      ((subDailyBucket_spec hsupported hstep hanchor).1 candidates hcandidates).2 hempty
  · refine raises_anchoredCandidatesFrom (2 ^ 63) raises_buildSubDailyCandidates
      (fun k => raises_exactAddSeconds dtstart _) (fun k anchor hanchor => ?_) (Nat.zero_le _)
      (by unfold loopFuel; omega)
    have hnanos := exactAddSeconds_eq_ok hanchor
    have hgrows : (k : Int) ≤ k * step := by
      have := Int.mul_le_mul_of_nonneg_left
        (show 1 ≤ step from subDailyStep_pos hinterval hstep) (show 0 ≤ (k : Int) by omega)
      omega
    have hstart := dtstart.inRange
    have hend := anchor.inRange
    unfold InRange at hstart hend
    unfold nanosPerSecond at hnanos
    omega

omit hinterval in
theorem raises_calendarAnchor (hfreq : calendarFrequency rule = true) (k : Nat) :
    Raises OutOfRange (calendarAnchor rule dtstart k) := by
  unfold calendarAnchor calendarStep
  unfold calendarFrequency at hfreq
  split_ifs
  · exact raises_pure dtstart
  · split
    · exact raises_addCalendar dtstart _ _
    · exact raises_addCalendar dtstart _ _
    · next hmonthly hyearly => cases hcase : rule.freq <;> simp_all

omit hinterval in
theorem raises_calendarStep (hfreq : calendarFrequency rule = true) (k : Nat) :
    Raises OutOfRange (calendarStep rule dtstart k) := by
  unfold calendarStep
  unfold calendarFrequency at hfreq
  split
  · exact raises_addCalendar dtstart _ _
  · exact raises_addCalendar dtstart _ _
  · next hmonthly hyearly => cases hcase : rule.freq <;> simp_all

theorem raises_expandCalendar (hplain : Plain rule) (hfreq : calendarFrequency rule = true)
    (hdays : rule.byDay = none) :
    Raises (Refused rule dtstart) (expandCalendar rule dtstart bounds) := by
  refine raises_bind (raises_ensure fun hsome => absurd hdays hsome) fun _ _ => ?_
  refine refused_of_raises (raises_bind (raises_calendarStep hfreq 0) fun _ _ => ?_)
  unfold assertCalendarFiltersSatisfiable
  rw [hplain.calendar hfreq, hplain.monthDay]
  refine raises_bind (raises_pure ()) fun _ _ => ?_
  exact raises_calendarFrom 8000 (raises_calendarAnchor hfreq)
    (fun k anchor hanchor => calendar_last hinterval hfreq (calendarAnchor_eq_ok hfreq hanchor).1)
    (Nat.zero_le _) (by unfold loopFuel; omega)

theorem raises_expandCalendarGenerator (hplain : Plain rule)
    (hfreq : calendarFrequency rule = true) {days : List ByDay} (hdays : rule.byDay = some days) :
    Raises (Refused rule dtstart) (expandCalendarGenerator rule dtstart bounds) := by
  have hcycle : generatorCycle rule = .ok (cycleBuckets rule) := by
    unfold calendarFrequency at hfreq
    unfold generatorCycle cycleBuckets
    cases hcase : rule.freq <;> simp [hcase] at hfreq ⊢ <;> rfl
  unfold expandCalendarGenerator assertGeneratorFiltersSatisfiable
  rw [hcycle]
  refine raises_bind (refused_of_raises (raises_calendarStep hfreq 0)) fun _ _ => ?_
  refine raises_bind (raises_assertSomeStep (fun index => refused_of_raises ?_)
    fun hnone => .inr ⟨rfl, .inr ?_⟩) fun _ _ => refused_of_raises ?_
  · exact raises_bind (raises_calendarAnchor hfreq index) fun _ _ => raises_pure _
  · intro k hk
    obtain ⟨anchor, hanchor, hempty⟩ := bind_eq_ok.mp (hnone k hk)
    exact empty_of_isEmpty (generatedCandidates_spec hplain hfreq hdays hanchor).2
      (pure_eq_ok.mp hempty)
  · rw [calendarGeneratorFrom_eq]
    exact raises_anchoredCandidatesFrom 8000 (fun _ => raises_pure _) (raises_calendarAnchor hfreq)
      (fun k anchor hanchor => calendar_last hinterval hfreq (calendarAnchor_eq_ok hfreq hanchor).1)
      (Nat.zero_le _) (by unfold loopFuel; omega)

omit hinterval in
/-- No day of the steps looked at passes. -/
theorem someDailyStep_eq_false {remaining : Nat} {current : PlainDateTime}
    (h : someDailyStep rule remaining current = .ok false) {k : Nat} (hk : k < remaining)
    {x : PlainDateTime} (hday : x.dayNumber = current.dayNumber + k * rule.intervalInteger)
    (htime : x.timeOfDay = current.timeOfDay) :
    (candidateCalendarFiltersAllowed rule x && byDayFilterAllowed rule x) = false := by
  induction remaining generalizing current k with
  | zero => omega
  | succ remaining ih =>
    obtain ⟨next, hnext, h⟩ := bind_eq_ok.mp h
    obtain ⟨hnextDay, hnextTime⟩ := PlainDateTime.addDays_eq_ok.mp hnext
    split_ifs at h with hallowed
    · cases h
    · cases k with
      | zero =>
        obtain rfl : x = current := PlainDateTime.eq_of_day_time (by simpa using hday) htime
        exact Bool.eq_false_of_not_eq_true hallowed
      | succ k =>
        refine ih h (k := k) (by omega) ?_ (htime.trans hnextTime.symm)
        rw [hday, hnextDay]
        push_cast
        ring

theorem raises_expandDaily (hplain : Plain rule) (hfreq : rule.freq = .daily) :
    Raises (Refused rule dtstart) (expandDaily rule dtstart bounds) := by
  have hyearly : rule.byMonth = none → defaultsMonth rule = false := by simp [defaultsMonth, hfreq]
  have hcycle : cycleBuckets rule = cycleSteps rule 146097 := by simp only [cycleBuckets, hfreq]
  have hfilters : Raises (Refused rule dtstart) (assertDailyFiltersSatisfiable rule dtstart) := by
    unfold assertDailyFiltersSatisfiable
    split_ifs
    · refine raises_bind (refused_of_raises ?_) fun satisfiable hok => raises_ensure fun hfalse =>
        .inr ⟨rfl, .inr fun k hk => ?_⟩
      · generalize cycleSteps rule 146097 = remaining
        generalize dtstart = current
        induction remaining generalizing current with
        | zero => exact raises_pure false
        | succ remaining ih =>
          refine raises_bind (raises_addDays current _) fun next _ => ?_
          split_ifs
          · exact raises_pure true
          · exact ih next
      · rw [Bool.eq_false_of_not_eq_true hfalse] at hok
        rw [hcycle] at hk
        rw [Set.eq_empty_iff_forall_notMem]
        intro x hx
        obtain ⟨hday, htime, hmonth, hweekday⟩ := (mem_dayBucket hplain hfreq).mp hx
        have hnone := someDailyStep_eq_false hok hk hday htime
        rw [(calendarFilters_iff hplain hyearly).mpr hmonth, Bool.true_and] at hnone
        unfold byDayFilterAllowed at hnone
        cases hdays : rule.byDay with
        | none =>
          rw [hdays] at hnone
          cases hnone
        | some days =>
          rw [hdays] at hnone
          exact Bool.false_ne_true
            (hnone.symm.trans ((byDayAllowed_iff hplain hdays).mpr hweekday))
    · exact raises_pure ()
  unfold expandDaily
  split
  · next days hdays =>
    refine raises_bind ?_ fun _ _ => raises_bind hfilters fun _ _ => refused_of_raises ?_
    · unfold assertDailyByDaySatisfiable
      rw [hdays]
      refine raises_ensure fun hsame => .inr ⟨rfl, .inr fun k _ => ?_⟩
      obtain ⟨hweeks, hother⟩ := not_not.mp hsame
      rw [Set.eq_empty_iff_forall_notMem]
      intro x hx
      obtain ⟨hday, -, -, hweekday⟩ := (mem_dayBucket hplain hfreq).mp hx
      rw [← byDayAllowed_iff hplain hdays] at hweekday
      obtain ⟨n, hn⟩ := Int.dvd_of_emod_eq_zero hweeks
      have hsteps : (k : Int) * rule.intervalInteger = 7 * (k * n) := by
        rw [hn]
        ring
      have hiso : x.isoWeekday = dtstart.isoWeekday := by
        unfold PlainDateTime.isoWeekday Date.isoWeekday
        omega
      rw [hiso, hother] at hweekday
      cases hweekday
    · rw [dailyByDayFrom_eq]
      exact raises_steppedFrom Int.one_pos (loopFuel_enough dtstart)
  · refine raises_bind hfilters fun _ _ => refused_of_raises ?_
    rw [dailyFrom_eq rule _ 0]
    exact raises_steppedFrom hinterval (loopFuel_enough dtstart)

omit hinterval in
theorem dayOfNumber_toNumber {n : Int} (h : 1 ≤ n ∧ n ≤ 7) : (dayOfNumber n).toNumber = n := by
  obtain ⟨hlow, hhigh⟩ := h
  interval_cases n <;> rfl

omit hinterval in
/-- Of a week that starts on the weekday of the start only its first day is tested. -/
theorem weekAllowed_default {n : Int} (h : 1 ≤ n ∧ n ≤ 7) (weekStart : PlainDateTime) :
    weekAllowed rule n weekStart [dayOfNumber n] =
      .ok (candidateCalendarFiltersAllowed rule weekStart) := by
  unfold weekAllowed
  rw [List.mapM_cons, List.mapM_nil, dayOfNumber_toNumber h, Int.sub_self]
  dsimp only
  rw [if_neg (by omega), PlainDateTime.addDays_zero]
  simp [bind, Except.bind, pure, Except.pure]

theorem raises_expandWeekly (hplain : Plain rule) (hfreq : rule.freq = .weekly) :
    Raises (Refused rule dtstart) (expandWeekly rule dtstart bounds) := by
  have hyearly : rule.byMonth = none → defaultsMonth rule = false := by simp [defaultsMonth, hfreq]
  have hcycle : cycleBuckets rule = cycleSteps rule 20871 := by simp only [cycleBuckets, hfreq]
  refine raises_bind ?_ fun _ _ => refused_of_raises ?_
  · unfold assertWeeklyFiltersSatisfiable
    rw [hplain.weekly hfreq]
    split_ifs
    · refine raises_assertSomeStep (fun index => refused_of_raises ?_)
        fun hnone => .inr ⟨rfl, .inr fun k hk => ?_⟩
      · refine raises_bind (raises_addDays dtstart _) fun weekStart _ => ?_
        refine raises_bind (raises_pure _) fun days _ => ?_
        refine raises_bind (raises_mapM fun day _ => ?_) fun _ _ => raises_pure _
        exact raises_bind (raises_addDays weekStart _) fun _ _ => raises_pure _
      · rw [hcycle] at hk
        have hfalse := hnone k hk
        obtain ⟨weekStart, hweekStart, hfalse⟩ := bind_eq_ok.mp hfalse
        obtain ⟨hday, htime⟩ := PlainDateTime.addDays_eq_ok.mp hweekStart
        rw [Set.eq_empty_iff_forall_notMem]
        intro x hx
        obtain ⟨hxDay, hxTime, hmonth⟩ := (mem_weekBucket hplain hfreq).mp hx
        obtain rfl : x = weekStart := PlainDateTime.eq_of_day_time (hxDay.trans hday.symm)
          (hxTime.trans htime.symm)
        have htested : weekAllowed rule (Date.isoWeekday dtstart.dayNumber) x
          [dayOfNumber (Date.isoWeekday dtstart.dayNumber)] = .ok false := hfalse
        rw [weekAllowed_default (Date.isoWeekday_bounds dtstart.dayNumber)] at htested
        exact Bool.false_ne_true ((Except.ok.inj htested).symm.trans
          ((calendarFilters_iff hplain hyearly).mpr hmonth))
    · exact raises_pure ()
  · rw [weeklyFrom_eq]
    exact raises_steppedFrom Int.one_pos (loopFuel_enough dtstart)

theorem raises_expandPlain (hplain : Plain rule) (hduration : needsDuration rule = false) :
    Raises (Refused rule dtstart) (expandPlain rule dtstart bounds) := by
  have hcalendar : calendarFrequency rule = true → Raises (Refused rule dtstart)
      (if rule.byMonthDay.isSome || rule.byDay.isSome then
        expandCalendarGenerator rule dtstart bounds else expandCalendar rule dtstart bounds) := by
    intro hfreq
    rw [hplain.monthDay, Option.isSome_none, Bool.false_or]
    cases hdays : rule.byDay with
    | none => exact raises_expandCalendar hinterval hplain hfreq hdays
    | some days => exact raises_expandCalendarGenerator hinterval hplain hfreq hdays
  unfold expandPlain
  split
  · next hfreq => exact hcalendar (by simp [calendarFrequency, hfreq])
  · next hfreq => exact hcalendar (by simp [calendarFrequency, hfreq])
  · next hfreq => exact raises_expandDaily hinterval hplain hfreq
  · next hfreq => exact raises_expandWeekly hinterval hplain hfreq
  · next hmonthly hyearly hdaily hweekly =>
    exfalso
    unfold needsDuration at hduration
    cases hfreq : rule.freq <;> simp_all

end Expansions

end Space2.Recurrence
