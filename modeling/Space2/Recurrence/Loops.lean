import Space2.Base.Firsts
import Space2.Recurrence.Engine
import Space2.Temporal.DayTime

/-!
# The loops of the engine

Every loop of the engine lists the first members of a family of buckets that lie between the start
and UNTIL. What a loop needs is that its buckets ascend and that nothing within the window is left
when it stops.
-/
namespace Space2.Recurrence
open Base Temporal

section Window

/-- From the start of a rule up to its UNTIL. -/
def window (dtstart : PlainDateTime) (bounds : Bounds) : Set PlainDateTime :=
  {x | dtstart ≤ x ∧ ∀ last, bounds.untilDate = some last → x ≤ last}

variable {dtstart x : PlainDateTime} {bounds : Bounds} {results candidates : List PlainDateTime}

theorem withinUntil_iff {untilDate : Option PlainDateTime} :
    withinUntil x untilDate = true ↔ ∀ last, untilDate = some last → x ≤ last := by
  cases untilDate with
  | none => simp [withinUntil]
  | some last => simp [withinUntil, PlainDateTime.compare_le]

theorem not_withinUntil {untilDate : Option PlainDateTime} (h : withinUntil x untilDate = false) :
    ∃ last, untilDate = some last ∧ last < x := by
  by_contra hnone
  push Not at hnone
  exact Bool.false_ne_true (h.symm.trans (withinUntil_iff.mpr hnone))

theorem pastUntil_iff {untilDate : Option PlainDateTime} :
    pastUntil x untilDate = true ↔ ∃ last, untilDate = some last ∧ last < x := by
  cases untilDate with
  | none => simp [pastUntil]
  | some last => simp [pastUntil, PlainDateTime.compare_gt]

theorem limitReached_iff :
    limitReached results bounds = true ↔ ∃ n, bounds.limit = some n ∧ n ≤ results.length := by
  unfold limitReached
  cases bounds.limit with
  | none => simp
  | some n => simp

def inWindow (dtstart : PlainDateTime) (bounds : Bounds) (x : PlainDateTime) : Bool :=
  !decide (x.compare dtstart < 0) && withinUntil x bounds.untilDate

theorem inWindow_iff : inWindow dtstart bounds x = true ↔ x ∈ window dtstart bounds := by
  unfold inWindow window
  rw [Bool.and_eq_true, Bool.not_eq_true', decide_eq_false_iff_not, PlainDateTime.compare_lt,
    not_lt, withinUntil_iff]
  rfl

theorem compareCandidates_iff (p q : PlainDateTime) :
    compareCandidates p q = true ↔ id p < id q := by
  unfold compareCandidates
  rw [decide_eq_true_iff, PlainDateTime.compare_lt]
  rfl

theorem sortCandidates_strict (h : candidates.Nodup) :
    (sortCandidates candidates).Pairwise (· < ·) :=
  tableSort_strict compareCandidates_iff (by simpa using h)

@[simp] theorem mem_sortCandidates : x ∈ sortCandidates candidates ↔ x ∈ candidates := mem_tableSort

/-- The candidates within the window are appended in order as far as the limit goes. -/
theorem appendGeneratedCandidates_eq
    (h : ∀ n, bounds.limit = some n → results.length ≤ n) :
    appendGeneratedCandidates results bounds dtstart candidates =
      takeUpTo bounds.limit
        (results ++ (sortCandidates candidates).filter (inWindow dtstart bounds)) := by
  unfold appendGeneratedCandidates
  generalize sortCandidates candidates = sorted
  induction sorted generalizing results with
  | nil => rw [List.filter_nil, List.append_nil, takeUpTo_of_length_le h]; rfl
  | cons c sorted ih =>
    rw [List.foldl_cons, Bool.and_assoc]
    change List.foldl _ (if !limitReached results bounds && inWindow dtstart bounds c then _ else _)
      _ = _
    cases hlimit : limitReached results bounds with
    | true =>
      obtain ⟨n, hn, hfull⟩ := limitReached_iff.mp hlimit
      have hexact : n = results.length := Nat.le_antisymm hfull (h n hn)
      rw [Bool.not_true, Bool.false_and, if_neg Bool.false_ne_true, ih h, hn, hexact]
      simp only [takeUpTo, List.take_left']
    | false =>
      rw [Bool.not_false, Bool.true_and, List.filter_cons]
      split_ifs with hin
      · rw [ih, List.append_assoc]
        · rfl
        · intro n hn
          have hroom : ¬ n ≤ results.length := fun hfull =>
            Bool.false_ne_true (hlimit.symm.trans (limitReached_iff.mpr ⟨n, hn, hfull⟩))
          rw [List.length_append, List.length_singleton]
          omega
      · exact ih h

end Window

section Steps

variable {dtstart : PlainDateTime} {bounds : Bounds} {bucket : Nat → Set PlainDateTime}
  {results : List PlainDateTime} {k : Nat}

/-- One bucket of candidates. -/
theorem firsts_append_candidates (hbucket : Ascends bucket)
    (h : Firsts bounds.limit (below bucket (window dtstart bounds) k) results)
    {candidates : List PlainDateTime} (hnodup : candidates.Nodup)
    (hmem : ∀ x, x ∈ candidates ↔ x ∈ bucket k) :
    Firsts bounds.limit (below bucket (window dtstart bounds) (k + 1))
      (appendGeneratedCandidates results bounds dtstart candidates) := by
  rw [appendGeneratedCandidates_eq h.bounded]
  refine h.next hbucket ((sortCandidates_strict hnodup).sublist List.filter_sublist) fun x => ?_
  rw [List.mem_filter, mem_sortCandidates, inWindow_iff, hmem]
  exact and_comm

/-- One date-time that is taken or not. -/
theorem firsts_append_taken (hbucket : Ascends bucket)
    (h : Firsts bounds.limit (below bucket (window dtstart bounds) k) results)
    (hroom : limitReached results bounds = false) {current : PlainDateTime} {taken : Bool}
    (hmem : ∀ x, x ∈ bucket k ↔ x = current ∧ taken = true)
    (hwindow : current ∈ window dtstart bounds) :
    Firsts bounds.limit (below bucket (window dtstart bounds) (k + 1))
      (if taken then results ++ [current] else results) := by
  have hlength : ∀ n, bounds.limit = some n → results.length < n := fun n hn => by
    by_contra hfull
    exact Bool.false_ne_true
      (hroom.symm.trans (limitReached_iff.mpr ⟨n, hn, Nat.le_of_not_lt hfull⟩))
  have hcut : (if taken then results ++ [current] else results) =
      takeUpTo bounds.limit (results ++ if taken then [current] else []) := by
    rw [takeUpTo_of_length_le]
    · split_ifs
      · rfl
      · rw [List.append_nil]
    · intro n hn
      have := hlength n hn
      split_ifs
      · rw [List.length_append, List.length_singleton]
        omega
      · rw [List.append_nil]
        omega
  rw [hcut]
  refine h.next hbucket ?_ fun x => ?_
  · split_ifs
    · exact List.pairwise_singleton _ _
    · exact List.Pairwise.nil
  · rw [hmem]
    split_ifs with htaken
    · rw [List.mem_singleton]
      exact ⟨fun h => ⟨h ▸ hwindow, h, htaken⟩, fun h => h.2.1⟩
    · exact iff_of_false List.not_mem_nil fun h => htaken h.2.2

theorem firsts_of_limitReached (hbucket : Ascends bucket)
    (h : Firsts bounds.limit (below bucket (window dtstart bounds) k) results)
    (hfull : limitReached results bounds = true) :
    Firsts bounds.limit (collected bucket (window dtstart bounds)) results :=
  h.of_limit hbucket (limitReached_iff.mp hfull)

/-- Nothing of the buckets from the `k`-th on is within UNTIL. -/
theorem firsts_of_pastUntil
    (h : Firsts bounds.limit (below bucket (window dtstart bounds) k) results)
    {last : PlainDateTime} (hlast : bounds.untilDate = some last)
    (hpast : ∀ j, k ≤ j → ∀ x ∈ bucket j, last < x) :
    Firsts bounds.limit (collected bucket (window dtstart bounds)) results :=
  h.of_past fun j hj x hx hwindow => absurd (hwindow.2 last hlast) (not_le.mpr (hpast j hj x hx))

end Steps

section Runs

variable {dtstart : PlainDateTime} {bounds : Bounds} {bucket : Nat → Set PlainDateTime}
  (hbucket : Ascends bucket)
include hbucket

/-- The buckets of the anchors, until an anchor lies past UNTIL. -/
theorem anchoredCandidatesFrom_firsts {build : PlainDateTime → Except String (List PlainDateTime)}
    {anchorAt : Nat → Except String PlainDateTime}
    (hbuild : ∀ k anchor candidates, anchorAt k = .ok anchor → build anchor = .ok candidates →
      candidates.Nodup ∧ ∀ x, x ∈ candidates ↔ x ∈ bucket k)
    (hpast : ∀ k anchor, anchorAt k = .ok anchor → ∀ j, k < j → ∀ x ∈ bucket j, anchor < x)
    {fuel k : Nat} {results final : List PlainDateTime}
    (h : Firsts bounds.limit (below bucket (window dtstart bounds) k) results)
    (hrun : anchoredCandidatesFrom build anchorAt dtstart bounds fuel k results = .ok final) :
    Firsts bounds.limit (collected bucket (window dtstart bounds)) final := by
  induction fuel generalizing k results with
  | zero => cases hrun
  | succ fuel ih =>
    rw [anchoredCandidatesFrom] at hrun
    split_ifs at hrun with hlimit
    · obtain rfl := pure_eq_ok.mp hrun
      exact firsts_of_limitReached hbucket h hlimit
    · simp only [bind_eq_ok] at hrun
      obtain ⟨anchor, hanchor, candidates, hcandidates, hrun⟩ := hrun
      obtain ⟨hnodup, hmem⟩ := hbuild k anchor candidates hanchor hcandidates
      have hnext := firsts_append_candidates hbucket h hnodup hmem
      split_ifs at hrun with hstop
      · obtain rfl := pure_eq_ok.mp hrun
        obtain ⟨last, hlast, hlt⟩ := pastUntil_iff.mp hstop
        exact firsts_of_pastUntil hnext hlast fun j hj x hx =>
          hlt.trans (hpast k anchor hanchor j (by omega) x hx)
      · exact ih hnext hrun

/-- The buckets of every interval of days, until a day lies past UNTIL. -/
theorem dailyCandidatesFrom_firsts {rule : Rule}
    (hbuild : ∀ k current candidates,
      current.dayNumber = dtstart.dayNumber + (k : Nat) * rule.intervalInteger →
        current.timeOfDay = dtstart.timeOfDay →
          buildDayCandidates rule dtstart current 1 false none = .ok candidates →
            candidates.Nodup ∧ ∀ x, x ∈ candidates ↔ x ∈ bucket k)
    (hpast : ∀ k last current, bounds.untilDate = some last →
      current.dayNumber = dtstart.dayNumber + (k : Nat) * rule.intervalInteger →
        current.timeOfDay = dtstart.timeOfDay → last < current →
          ∀ j, k ≤ j → ∀ x ∈ bucket j, last < x)
    {fuel k : Nat} {current : PlainDateTime} {results final : List PlainDateTime}
    (hday : current.dayNumber = dtstart.dayNumber + k * rule.intervalInteger)
    (htime : current.timeOfDay = dtstart.timeOfDay)
    (h : Firsts bounds.limit (below bucket (window dtstart bounds) k) results)
    (hrun : dailyCandidatesFrom rule dtstart bounds fuel current results = .ok final) :
    Firsts bounds.limit (collected bucket (window dtstart bounds)) final := by
  induction fuel generalizing k current results with
  | zero => cases hrun
  | succ fuel ih =>
    rw [dailyCandidatesFrom] at hrun
    split_ifs at hrun with hstop
    · obtain rfl := pure_eq_ok.mp hrun
      rw [Bool.or_eq_true, Bool.not_eq_true'] at hstop
      rcases hstop with hlimit | huntil
      · exact firsts_of_limitReached hbucket h hlimit
      · obtain ⟨last, hlast, hlt⟩ := not_withinUntil huntil
        exact firsts_of_pastUntil h hlast (hpast k last current hlast hday htime hlt)
    · simp only [bind_eq_ok] at hrun
      obtain ⟨candidates, hcandidates, next, hnext, hrun⟩ := hrun
      obtain ⟨hnodup, hmem⟩ := hbuild k current candidates hday htime hcandidates
      obtain ⟨hnextDay, hnextTime⟩ := PlainDateTime.addDays_eq_ok.mp hnext
      refine ih (k := k + 1) ?_ (hnextTime.trans htime) (firsts_append_candidates hbucket h hnodup hmem)
        hrun
      rw [hnextDay, hday]
      push_cast
      ring

/-- The buckets of every interval of weeks, until a week starts past UNTIL. -/
theorem weeklyCandidatesFrom_firsts {rule : Rule} {first : Int}
    (hbuild : ∀ k start candidates,
      start.dayNumber = first + (k : Nat) * (rule.intervalInteger * 7) →
        start.timeOfDay = dtstart.timeOfDay →
          buildDayCandidates rule dtstart start 7 false none = .ok candidates →
            candidates.Nodup ∧ ∀ x, x ∈ candidates ↔ x ∈ bucket k)
    (hpast : ∀ k start, start.dayNumber = first + (k : Nat) * (rule.intervalInteger * 7) →
      start.timeOfDay = dtstart.timeOfDay → ∀ j, k < j → ∀ x ∈ bucket j, start < x)
    {fuel k : Nat} {start : PlainDateTime} {results final : List PlainDateTime}
    (hday : start.dayNumber = first + k * (rule.intervalInteger * 7))
    (htime : start.timeOfDay = dtstart.timeOfDay)
    (h : Firsts bounds.limit (below bucket (window dtstart bounds) k) results)
    (hrun : weeklyCandidatesFrom rule dtstart bounds fuel start results = .ok final) :
    Firsts bounds.limit (collected bucket (window dtstart bounds)) final := by
  induction fuel generalizing k start results with
  | zero => cases hrun
  | succ fuel ih =>
    rw [weeklyCandidatesFrom] at hrun
    by_cases hlimit : limitReached results bounds = true
    · rw [if_pos hlimit] at hrun
      obtain rfl := pure_eq_ok.mp hrun
      exact firsts_of_limitReached hbucket h hlimit
    · rw [if_neg hlimit] at hrun
      simp only [bind_eq_ok] at hrun
      obtain ⟨candidates, hcandidates, next, hnext, hrun⟩ := hrun
      obtain ⟨hnodup, hmem⟩ := hbuild k start candidates hday htime hcandidates
      have happended := firsts_append_candidates hbucket h hnodup hmem
      obtain ⟨hnextDay, hnextTime⟩ := PlainDateTime.addDays_eq_ok.mp hnext
      split_ifs at hrun with hstop
      · obtain rfl := pure_eq_ok.mp hrun
        obtain ⟨last, hlast, hlt⟩ := pastUntil_iff.mp hstop
        exact firsts_of_pastUntil happended hlast fun j hj x hx =>
          hlt.trans (hpast k start hday htime j (by omega) x hx)
      · refine ih (k := k + 1) ?_ (hnextTime.trans htime) happended hrun
        rw [hnextDay, hday]
        push_cast
        ring

/-- The anchors that pass, until one lies past UNTIL. -/
theorem calendarFrom_firsts {rule : Rule}
    (hmem : ∀ k anchor, calendarAnchor rule dtstart k = .ok anchor →
      ∀ x, x ∈ bucket k ↔ x = anchor ∧ candidateCalendarFiltersAllowed rule anchor = true)
    (hpast : ∀ k anchor, calendarAnchor rule dtstart k = .ok anchor →
      dtstart ≤ anchor ∧ ∀ j, k < j → ∀ x ∈ bucket j, anchor < x)
    {fuel k : Nat} {results final : List PlainDateTime}
    (h : Firsts bounds.limit (below bucket (window dtstart bounds) k) results)
    (hrun : calendarFrom rule dtstart bounds fuel k results = .ok final) :
    Firsts bounds.limit (collected bucket (window dtstart bounds)) final := by
  induction fuel generalizing k results with
  | zero => cases hrun
  | succ fuel ih =>
    rw [calendarFrom] at hrun
    split_ifs at hrun with hlimit
    · obtain rfl := pure_eq_ok.mp hrun
      exact firsts_of_limitReached hbucket h hlimit
    · simp only [bind_eq_ok] at hrun
      obtain ⟨anchor, hanchor, hrun⟩ := hrun
      obtain ⟨hstart, hlater⟩ := hpast k anchor hanchor
      by_cases hstop : (!withinUntil anchor bounds.untilDate) = true
      · rw [if_pos hstop] at hrun
        obtain rfl := pure_eq_ok.mp hrun
        obtain ⟨last, hlast, hlt⟩ := not_withinUntil (by simpa using hstop)
        refine firsts_of_pastUntil h hlast fun j hj x hx => ?_
        rcases Nat.lt_or_eq_of_le hj with hlt' | rfl
        · exact hlt.trans (hlater j hlt' x hx)
        · rwa [((hmem k anchor hanchor x).mp hx).1]
      · rw [if_neg hstop] at hrun
        have hwithin := withinUntil_iff.mp (by simpa using hstop)
        exact ih (firsts_append_taken hbucket h (by simpa using hlimit) (hmem k anchor hanchor)
          ⟨hstart, hwithin⟩) hrun

section Stepped

/-- Step by step of `step` days, taking the date-times that pass. -/
def steppedFrom (taken : Int → PlainDateTime → Bool) (step : Int) (bounds : Bounds) :
    Nat → Int → PlainDateTime → List PlainDateTime → Except String (List PlainDateTime)
  | 0, _, _, _ => throw outOfFuel
  | fuel + 1, index, current, results =>
    if limitReached results bounds || !withinUntil current bounds.untilDate then pure results
    else do
      let next ← current.addDays step
      steppedFrom taken step bounds fuel (index + 1) next
        (if taken index current then results ++ [current] else results)

omit hbucket in
theorem dailyFrom_eq (rule : Rule) (fuel : Nat) (index : Int) (current : PlainDateTime)
    (results : List PlainDateTime) :
    dailyFrom rule bounds fuel current results =
      steppedFrom (fun _ => candidateCalendarFiltersAllowed rule) rule.intervalInteger bounds fuel
        index current results := by
  induction fuel generalizing index current results with
  | zero => rfl
  | succ fuel ih => simp only [dailyFrom, steppedFrom, ih (index + 1)]

omit hbucket in
theorem dailyByDayFrom_eq (rule : Rule) (days : List ByDay) (fuel : Nat) (index : Int)
    (current : PlainDateTime) (results : List PlainDateTime) :
    dailyByDayFrom rule days bounds fuel index current results =
      steppedFrom (fun dayOffset current => dayOffset % rule.intervalInteger == 0 &&
        byDayAllowed days current.isoWeekday && candidateCalendarFiltersAllowed rule current)
        1 bounds fuel index current results := by
  induction fuel generalizing index current results with
  | zero => rfl
  | succ fuel ih => simp only [dailyByDayFrom, steppedFrom, ih]

omit hbucket in
theorem weeklyFrom_eq (rule : Rule) (defaultWeekday : Int) (fuel : Nat) (index : Int)
    (current : PlainDateTime) (results : List PlainDateTime) :
    weeklyFrom rule defaultWeekday bounds fuel index current results =
      steppedFrom (fun dayOffset current => dayOffset / 7 % rule.intervalInteger == 0 &&
        weeklyDayAllowed rule current.isoWeekday defaultWeekday &&
          candidateCalendarFiltersAllowed rule current) 1 bounds fuel index current results := by
  induction fuel generalizing index current results with
  | zero => rfl
  | succ fuel ih => simp only [weeklyFrom, steppedFrom, ih]

/-- The date-time `k` steps after the start, when it is taken. -/
def steppedBucket (dtstart : PlainDateTime) (taken : Int → PlainDateTime → Bool) (step : Int)
    (k : Nat) : Set PlainDateTime :=
  {x | x.dayNumber = dtstart.dayNumber + k * step ∧ x.timeOfDay = dtstart.timeOfDay ∧
    taken k x = true}

omit hbucket in
theorem steppedBucket_ascends {taken : Int → PlainDateTime → Bool} {step : Int} (hstep : 0 < step) :
    Ascends (steppedBucket dtstart taken step) := by
  rintro j k hjk a ⟨ha, -⟩ b ⟨hb, -⟩
  apply PlainDateTime.lt_of_day
  rw [ha, hb]
  have : (j : Int) * step < k * step := Int.mul_lt_mul_of_pos_right (by omega) hstep
  omega

omit hbucket in
theorem steppedFrom_firsts {taken : Int → PlainDateTime → Bool} {step : Int} (hstep : 0 < step)
    {fuel k : Nat} {current : PlainDateTime} {results final : List PlainDateTime}
    (hday : current.dayNumber = dtstart.dayNumber + k * step)
    (htime : current.timeOfDay = dtstart.timeOfDay)
    (h : Firsts bounds.limit
      (below (steppedBucket dtstart taken step) (window dtstart bounds) k) results)
    (hrun : steppedFrom taken step bounds fuel k current results = .ok final) :
    Firsts bounds.limit
      (collected (steppedBucket dtstart taken step) (window dtstart bounds)) final := by
  have hascends : Ascends (steppedBucket dtstart taken step) := steppedBucket_ascends hstep
  induction fuel generalizing k current results with
  | zero => cases hrun
  | succ fuel ih =>
    have hnonneg : (0 : Int) ≤ k * step := Int.mul_nonneg (by omega) hstep.le
    rw [steppedFrom] at hrun
    by_cases hstop : (limitReached results bounds || !withinUntil current bounds.untilDate) = true
    · rw [if_pos hstop] at hrun
      obtain rfl := pure_eq_ok.mp hrun
      rw [Bool.or_eq_true, Bool.not_eq_true'] at hstop
      rcases hstop with hlimit | huntil
      · exact firsts_of_limitReached hascends h hlimit
      · obtain ⟨last, hlast, hlt⟩ := not_withinUntil huntil
        refine firsts_of_pastUntil h hlast ?_
        rintro j hj x ⟨hx, hxTime, -⟩
        rcases Nat.lt_or_eq_of_le hj with hlater | rfl
        · refine hlt.trans (PlainDateTime.lt_of_day ?_)
          have : (k : Int) * step < j * step := Int.mul_lt_mul_of_pos_right (by omega) hstep
          omega
        · rwa [PlainDateTime.eq_of_day_time (hx.trans hday.symm) (hxTime.trans htime.symm)]
    · rw [if_neg hstop] at hrun
      rw [Bool.or_eq_true, not_or, Bool.not_eq_true, Bool.not_eq_true, Bool.not_eq_false'] at hstop
      obtain ⟨next, hnext, hrun⟩ := bind_eq_ok.mp hrun
      obtain ⟨hnextDay, hnextTime⟩ := PlainDateTime.addDays_eq_ok.mp hnext
      have hstart : dtstart ≤ current := by
        rw [PlainDateTime.le_iff, PlainDateTime.nanoseconds_eq, PlainDateTime.nanoseconds_eq current,
          hday, htime]
        unfold nanosPerDay
        omega
      have hmem : ∀ x, x ∈ steppedBucket dtstart taken step k ↔
          x = current ∧ taken k current = true := by
        intro x
        constructor
        · rintro ⟨hx, hxTime, htaken⟩
          obtain rfl := PlainDateTime.eq_of_day_time (hx.trans hday.symm) (hxTime.trans htime.symm)
          exact ⟨rfl, htaken⟩
        · rintro ⟨rfl, htaken⟩
          exact ⟨hday, htime, htaken⟩
      have happended := firsts_append_taken hascends h hstop.1 hmem
        ⟨hstart, withinUntil_iff.mp hstop.2⟩
      refine ih (k := k + 1) ?_ (hnextTime.trans htime) happended (by exact_mod_cast hrun)
      rw [hnextDay, hday]
      push_cast
      ring

end Stepped

omit hbucket in
theorem calendarGeneratorFrom_eq (rule : Rule) (fuel k : Nat) (results : List PlainDateTime) :
    calendarGeneratorFrom rule dtstart bounds fuel k results =
      anchoredCandidatesFrom (fun anchor => pure (generatedCandidatesForAnchor rule dtstart anchor))
        (calendarAnchor rule dtstart) dtstart bounds fuel k results := by
  induction fuel generalizing k results with
  | zero => rfl
  | succ fuel ih => simp only [calendarGeneratorFrom, anchoredCandidatesFrom, ih, pure_bind]

end Runs

end Space2.Recurrence
