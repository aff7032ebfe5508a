import Space2.Recurrence.Buckets

/-!
# What an expansion lists

Every path of the engine lists the first members of the buckets of the rule, from the start up to
UNTIL. A plain path tests less than the selector engine does; on the rules it serves that comes to
the same set.
-/
namespace Space2.Recurrence
open Base Temporal

variable {rule : Rule} {dtstart x : PlainDateTime} {bounds : Bounds} {final : List PlainDateTime}

/-- The date-times of a rule from its start up to its UNTIL. -/
def selectedSet (rule : Rule) (dtstart : PlainDateTime) (bounds : Bounds) : Set PlainDateTime :=
  collected (bucketSet rule dtstart) (window dtstart bounds)

section Selectors

/-- An expansion by days ends with a day past UNTIL, counted at the time of the start. An UNTIL before
that time must come before every time selected. -/
def UntilReached (rule : Rule) (dtstart : PlainDateTime) (bounds : Bounds) : Prop :=
  rule.freq = .daily → ∀ last, bounds.untilDate = some last →
    last.timeOfDay < dtstart.timeOfDay → ∀ x, TimeSelected rule dtstart x →
      last.timeOfDay < x.timeOfDay

theorem timeSelected_of_plain (hduration : needsDuration rule = false)
    (htimes : hasTimeSelectors rule = false) :
    TimeSelected rule dtstart x ↔ x.timeOfDay = dtstart.timeOfDay := by
  simp only [hasTimeSelectors, Bool.or_eq_false_iff, Option.isSome_eq_false_iff,
    Option.isNone_iff_eq_none] at htimes
  obtain ⟨⟨hsecond, hminute⟩, hhour⟩ := htimes
  have hfreq : (rule.freq != .secondly) = true := by
    unfold needsDuration at hduration
    rw [Bool.or_eq_false_iff, Bool.or_eq_false_iff] at hduration
    rw [bne, hduration.1.1]
    rfl
  constructor
  · rintro ⟨hhours, hminutes, hseconds, hnano⟩
    rw [hhour] at hhours
    rw [hminute] at hminutes
    rw [hsecond] at hseconds
    rw [← x.timeOfDay_fields, ← dtstart.timeOfDay_fields, hhours (by rw [hduration]; rfl),
      hminutes (by rw [hduration]; rfl), hseconds hfreq, hnano]
  · intro htime
    have hfields : ∀ p : PlainDateTime, (p.fields.hour, p.fields.minute, p.fields.second,
        p.fields.nanosecond) = timeFields p.timeOfDay := fun _ => rfl
    have hsame := (hfields x).trans ((congrArg timeFields htime).trans (hfields dtstart).symm)
    simp only [Prod.mk.injEq] at hsame
    obtain ⟨hh, hm, hs, hn⟩ := hsame
    refine ⟨?_, ?_, ?_, hn⟩
    · rw [hhour]
      exact fun _ => hh
    · rw [hminute]
      exact fun _ => hm
    · rw [hsecond]
      exact fun _ => hs

/-- When a day is past UNTIL nothing of its bucket or of later ones is within UNTIL. -/
theorem daily_past (hfreq : rule.freq = .daily) (hinterval : 0 < rule.intervalInteger)
    (huntil : UntilReached rule dtstart bounds) {k : Nat} {last current : PlainDateTime}
    (hlast : bounds.untilDate = some last)
    (hday : current.dayNumber = dtstart.dayNumber + k * rule.intervalInteger)
    (htime : current.timeOfDay = dtstart.timeOfDay) (hlt : last < current)
    {j : Nat} (hj : k ≤ j) (hx : x ∈ bucketSet rule dtstart j) : last < x := by
  have hperiod := mem_bucketSet_period hx
  simp only [periodOf, hfreq] at hperiod
  have hsteps : (k : Int) * rule.intervalInteger ≤ j * rule.intervalInteger :=
    Int.mul_le_mul_of_nonneg_right (by omega) hinterval.le
  have hlastDay := PlainDateTime.day_le_of_le hlt.le
  by_cases hearly : last.timeOfDay < dtstart.timeOfDay
  · have hlater := huntil hfreq last hlast hearly x ((positioned_subset rule _ hx).2).2
    rcases lt_or_eq_of_le (show last.dayNumber ≤ x.dayNumber by omega) with hday' | hday'
    · exact PlainDateTime.lt_of_day hday'
    · rw [PlainDateTime.lt_iff, last.nanoseconds_eq, x.nanoseconds_eq, hday']
      omega
  · rw [PlainDateTime.lt_iff, last.nanoseconds_eq, current.nanoseconds_eq] at hlt
    unfold nanosPerDay at hlt
    exact PlainDateTime.lt_of_day (by omega)

/-- Without times to select every occurrence has the time of the start. -/
theorem untilReached_of_plain (htimes : hasTimeSelectors rule = false) :
    UntilReached rule dtstart bounds := by
  intro hfreq last _ hearly x hselected
  rw [timeSelected_of_plain (by simp [needsDuration, hfreq]) htimes] at hselected
  rwa [hselected]

end Selectors

section Candidates

theorem startOfWeek_firstWeek {start : PlainDateTime}
    (h : startOfWeek dtstart rule.weekStart = .ok start) :
    start.dayNumber = firstWeek rule dtstart ∧ start.timeOfDay = dtstart.timeOfDay := by
  obtain ⟨hday, htime⟩ := startOfWeek_eq_ok h
  rw [PlainDateTime.isoWeekday, weekdayOffset_eq] at hday
  exact ⟨hday, htime⟩

variable (hinterval : 0 < rule.intervalInteger)
include hinterval

theorem expandDailyCandidates_firsts (hfreq : rule.freq = .daily)
    (huntil : UntilReached rule dtstart bounds)
    (h : expandDailyCandidates rule dtstart bounds = .ok final) :
    Firsts bounds.limit (selectedSet rule dtstart bounds) final := by
  unfold expandDailyCandidates at h
  obtain ⟨-, -, h⟩ := bind_eq_ok.mp h
  exact dailyCandidatesFrom_firsts (bucketSet_ascends hinterval)
    (fun k current candidates hday htime => dayBucket_spec hfreq hday htime)
    (fun k last current hlast hday htime hlt j hj x =>
      daily_past hfreq hinterval huntil hlast hday htime hlt hj)
    (k := 0) (by simp) rfl Firsts.start h

theorem expandWeeklyCandidates_firsts (hfreq : rule.freq = .weekly)
    (h : expandWeeklyCandidates rule dtstart bounds = .ok final) :
    Firsts bounds.limit (selectedSet rule dtstart bounds) final := by
  unfold expandWeeklyCandidates at h
  simp only [bind_eq_ok] at h
  obtain ⟨-, -, start, hstart, h⟩ := h
  obtain ⟨hday, htime⟩ := startOfWeek_firstWeek hstart
  refine weeklyCandidatesFrom_firsts (bucketSet_ascends hinterval)
    (fun k start candidates hday htime => weekBucket_spec hfreq hday htime)
    (fun k start hday htime j hj x hx => lt_later_bucket hinterval (k := k) ?_ hj hx)
    (k := 0) (by simpa using hday) htime Firsts.start h
  simp only [periodOf, hfreq]
  rw [hday, firstWeek, ← mul_assoc]
  generalize (k : Int) * rule.intervalInteger = n
  omega

theorem expandMonthlyCandidates_firsts (hfreq : rule.freq = .monthly)
    (h : expandMonthlyCandidates rule dtstart bounds = .ok final) :
    Firsts bounds.limit (selectedSet rule dtstart bounds) final := by
  unfold expandMonthlyCandidates at h
  obtain ⟨-, -, h⟩ := bind_eq_ok.mp h
  refine anchoredCandidatesFrom_firsts (bucketSet_ascends hinterval)
    (fun k anchor candidates => monthBucket_spec hfreq)
    (fun k anchor hanchor j hj x hx => lt_later_bucket hinterval (k := k) ?_ hj hx) Firsts.start h
  have hmonths := (PlainDateTime.addCalendar_eq_ok hanchor).1
  simp only [periodOf, hfreq]
  omega

theorem expandYearlyCandidates_firsts (hfreq : rule.freq = .yearly)
    (hmonth : rule.byMonth = none → defaultsMonth rule = false)
    (h : expandYearlyCandidates rule dtstart bounds = .ok final) :
    Firsts bounds.limit (selectedSet rule dtstart bounds) final := by
  unfold expandYearlyCandidates at h
  obtain ⟨-, -, h⟩ := bind_eq_ok.mp h
  refine anchoredCandidatesFrom_firsts (bucketSet_ascends hinterval)
    (fun k anchor candidates => yearBucket_spec hfreq hmonth)
    (fun k anchor hanchor j hj x hx => lt_later_bucket hinterval (k := k) ?_ hj hx) Firsts.start h
  simp only [periodOf, hfreq]
  exact (addYears_eq_ok hanchor).1

/-- Rules by days or longer, through the selector engine. -/
theorem expandCandidates_firsts (hmonth : rule.byMonth = none → defaultsMonth rule = false)
    (huntil : UntilReached rule dtstart bounds)
    (h : expandCandidates rule dtstart bounds = .ok final) :
    Firsts bounds.limit (selectedSet rule dtstart bounds) final := by
  unfold expandCandidates at h
  split at h
  · next hfreq => exact expandDailyCandidates_firsts hinterval hfreq huntil h
  · next hfreq => exact expandWeeklyCandidates_firsts hinterval hfreq h
  · next hfreq => exact expandMonthlyCandidates_firsts hinterval hfreq h
  · next hfreq => exact expandYearlyCandidates_firsts hinterval hfreq hmonth h
  · cases h

omit hinterval in
/-- The anchors of a rule by hours or shorter, and what the engine builds for each. -/
theorem subDailyBucket_spec (hsupported : hasUnsupportedSubDailyDateSelectors rule = false)
    {step : Int} (hstep : subDailyStepSeconds rule = .ok step) {k : Nat} {anchor : PlainDateTime}
    (hanchor : exactAddSeconds dtstart (k * step) = .ok anchor) :
    (∀ candidates, buildSubDailyCandidates rule dtstart anchor = .ok candidates →
      candidates.Nodup ∧ ∀ x, x ∈ candidates ↔ x ∈ bucketSet rule dtstart k) ∧
      periodOf rule anchor = periodOf rule dtstart + k * rule.intervalInteger := by
  have hnanos := exactAddSeconds_eq_ok hanchor
  unfold subDailyStepSeconds at hstep
  unfold periodOf
  split at hstep
  · next hfreq =>
    obtain rfl := pure_eq_ok.mp hstep
    refine ⟨fun candidates => secondBucket_spec hfreq hsupported hanchor, ?_⟩
    simp only [hfreq]
    unfold nanosPerSecond at *
    omega
  · next hfreq =>
    obtain rfl := pure_eq_ok.mp hstep
    refine ⟨fun candidates => minuteBucket_spec hfreq hsupported hanchor, ?_⟩
    simp only [hfreq]
    rw [← mul_assoc] at hnanos
    unfold nanosPerSecond at *
    omega
  · next hfreq =>
    obtain rfl := pure_eq_ok.mp hstep
    refine ⟨fun candidates => hourBucket_spec hfreq hsupported hanchor, ?_⟩
    simp only [hfreq]
    rw [← mul_assoc] at hnanos
    unfold nanosPerSecond at *
    omega
  · cases hstep

/-- Rules by hours or shorter. -/
theorem expandSubDaily_firsts (h : expandSubDaily rule dtstart bounds = .ok final) :
    Firsts bounds.limit (selectedSet rule dtstart bounds) final := by
  unfold expandSubDaily at h
  simp only [bind_eq_ok, ensure_eq_ok] at h
  obtain ⟨-, hsupported, -, -, step, hstep, h⟩ := h
  exact anchoredCandidatesFrom_firsts (bucketSet_ascends hinterval)
    (fun k anchor candidates hanchor =>
      (subDailyBucket_spec hsupported hstep hanchor).1 candidates)
    (fun k anchor hanchor j hj x hx =>
      lt_later_bucket hinterval (subDailyBucket_spec hsupported hstep hanchor).2 hj hx)
    Firsts.start h

end Candidates

end Space2.Recurrence
