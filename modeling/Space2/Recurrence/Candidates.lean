import Space2.Recurrence.Selectors

/-!
# The candidates of a bucket

The engine walks the days of a bucket, tests the date of each, times it and takes the positions of
BYSETPOS. The candidates it is left with are the members of the bucket, each once.
-/
namespace Space2.Recurrence
open Base Temporal

variable {rule : Rule} {dtstart candidate x : PlainDateTime}

section Dates

variable {yearly allowed : Bool} {defaultDay : Option Int}

theorem andThen_eq_ok {first : Bool} {rest : Except String Bool} :
    andThen first rest = .ok allowed ↔
      (first = true ∧ rest = .ok allowed) ∨ (first = false ∧ allowed = false) := by
  cases first with
  | true => simp [andThen]
  | false => simpa [andThen] using eq_comm

theorem monthDaySelectorAllowed_iff (h : monthDaySelectorAllowed rule candidate = .ok allowed) :
    allowed = true ↔ MonthDaySelected rule candidate.date := by
  unfold monthDaySelectorAllowed at h
  unfold MonthDaySelected
  cases hdays : rule.byMonthDay with
  | none =>
    rw [hdays] at h
    obtain rfl := pure_eq_ok.mp h
    simp
  | some days =>
    rw [hdays] at h
    simpa using resolvedMonthDayAllowed_iff h

theorem yearDaySelectorAllowed_iff :
    yearDaySelectorAllowed rule candidate = true ↔ YearDaySelected rule candidate.date := by
  unfold yearDaySelectorAllowed YearDaySelected
  cases rule.byYearDay with
  | none => simp
  | some days => simpa using resolvedYearDayAllowed_iff

theorem weekNoSelectorAllowed_iff
    (htime : rule.byWeekNo = none ∨ candidate.timeOfDay = dtstart.timeOfDay)
    (h : weekNoSelectorAllowed rule candidate dtstart = .ok allowed) :
    allowed = true ↔ WeekNoSelected rule candidate.date := by
  unfold weekNoSelectorAllowed at h
  unfold WeekNoSelected
  cases hweeks : rule.byWeekNo with
  | none =>
    rw [hweeks] at h
    obtain rfl := pure_eq_ok.mp h
    simp
  | some weeks =>
    rw [hweeks] at h
    have htime : candidate.timeOfDay = dtstart.timeOfDay := htime.resolve_left (by simp [hweeks])
    simpa using resolvedWeekNoAllowed_iff htime h

theorem dateByDayAllowed_iff (h : dateByDayAllowed rule candidate dtstart (countsInYear rule) =
    .ok allowed) : allowed = true ↔ WeekdaySelected rule dtstart candidate.date := by
  unfold dateByDayAllowed at h
  unfold WeekdaySelected
  cases hdays : rule.byDay with
  | none =>
    rw [hdays] at h
    obtain rfl := pure_eq_ok.mp h
    rw [Bool.or_eq_true, bne_iff_ne, beq_iff_eq, PlainDateTime.dayNumber_date, ← imp_iff_not_or]
    rfl
  | some entries =>
    rw [hdays] at h
    obtain ⟨tested, htested, h⟩ := bind_eq_ok.mp h
    obtain rfl := pure_eq_ok.mp h
    refine mapM_any (fun entry _ b hb => ?_) htested
    cases entry with
    | every day =>
      obtain rfl := pure_eq_ok.mp hb
      unfold EntrySelected
      rw [beq_iff_eq, PlainDateTime.dayNumber_date, eq_comm]
      rfl
    | nth day n =>
      unfold EntrySelected
      rw [PlainDateTime.dayNumber_date]
      exact ordinalByDayAllowed_iff hb

theorem dateSelectorsAllowed_iff
    (htime : rule.byWeekNo = none ∨ candidate.timeOfDay = dtstart.timeOfDay)
    (hmonth : rule.byMonth = none → defaultsMonth rule = false)
    (hyearly : (yearly && rule.byMonth.isNone) = countsInYear rule)
    (hday : defaultMonthDayAllowed rule candidate defaultDay = true ↔
      DaySelected rule dtstart candidate.date)
    (h : dateSelectorsAllowed rule candidate dtstart yearly defaultDay = .ok allowed) :
    allowed = true ↔ DateSelected rule dtstart candidate.date := by
  unfold dateSelectorsAllowed at h
  rw [hyearly] at h
  have hmonths : monthFilterAllowed rule candidate = true ↔
      MonthSelected rule dtstart candidate.date := monthFilterAllowed_iff hmonth
  rcases andThen_eq_ok.mp h with ⟨hfirst, h⟩ | ⟨hfirst, rfl⟩
  · obtain ⟨monthDay, hmonthDay, h⟩ := bind_eq_ok.mp h
    have hmonthDays := monthDaySelectorAllowed_iff hmonthDay
    have hyearDays : yearDaySelectorAllowed rule candidate = true ↔
        YearDaySelected rule candidate.date := yearDaySelectorAllowed_iff
    rcases andThen_eq_ok.mp h with ⟨hsecond, h⟩ | ⟨hsecond, rfl⟩
    · rw [Bool.and_eq_true, hmonthDays, hyearDays] at hsecond
      obtain ⟨weekNo, hweekNo, h⟩ := bind_eq_ok.mp h
      have hweekNos := weekNoSelectorAllowed_iff htime hweekNo
      rcases andThen_eq_ok.mp h with ⟨hthird, h⟩ | ⟨hthird, rfl⟩
      · rw [Bool.and_eq_true, hweekNos, hday] at hthird
        rw [dateByDayAllowed_iff h]
        exact ⟨fun hweekday => ⟨hmonths.mp hfirst, hsecond.1, hsecond.2, hthird.1, hthird.2,
          hweekday⟩, DateSelected.weekday⟩
      · refine iff_of_false Bool.false_ne_true fun hselected => ?_
        rw [Bool.and_eq_false_iff, ← Bool.not_eq_true, ← Bool.not_eq_true, hweekNos, hday] at hthird
        exact hthird.elim (· hselected.weekNo) (· hselected.day)
    · refine iff_of_false Bool.false_ne_true fun hselected => ?_
      rw [Bool.and_eq_false_iff, ← Bool.not_eq_true, ← Bool.not_eq_true, hmonthDays, hyearDays]
        at hsecond
      exact hsecond.elim (· hselected.monthDay) (· hselected.yearDay)
  · refine iff_of_false Bool.false_ne_true fun hselected => ?_
    exact Bool.false_ne_true (hfirst.symm.trans (hmonths.mpr hselected.month))

end Dates

section Once

variable {candidates : List PlainDateTime}

theorem insertCandidateOnce_eq (candidates : List PlainDateTime) (candidate : PlainDateTime) :
    insertCandidateOnce candidates candidate =
      if candidate ∈ candidates then candidates else candidates ++ [candidate] := by
  have hany : (candidates.any fun existing => existing.compare candidate == 0) = true ↔
      candidate ∈ candidates := by
    simp only [List.any_eq_true, beq_iff_eq, PlainDateTime.compare_eq, exists_eq_right]
  unfold insertCandidateOnce
  simp only [hany]

theorem foldl_insertCandidateOnce (l : List PlainDateTime) (h : candidates.Nodup) :
    (l.foldl insertCandidateOnce candidates).Nodup ∧
      ∀ x, x ∈ l.foldl insertCandidateOnce candidates ↔ x ∈ candidates ∨ x ∈ l := by
  induction l generalizing candidates with
  | nil => simpa using h
  | cons c l ih =>
    rw [List.foldl_cons, insertCandidateOnce_eq]
    split_ifs with hmem
    · obtain ⟨hnodup, hall⟩ := ih h
      refine ⟨hnodup, fun x => ?_⟩
      rw [hall, List.mem_cons]
      have : x = c → x ∈ candidates := fun heq => heq ▸ hmem
      tauto
    · have hnext : (candidates ++ [c]).Nodup := by
        rw [List.nodup_append]
        refine ⟨h, List.nodup_singleton c, fun a ha b hb => ?_⟩
        rw [List.mem_singleton.mp hb]
        exact fun heq => hmem (heq ▸ ha)
      obtain ⟨hnodup, hall⟩ := ih hnext
      refine ⟨hnodup, fun x => ?_⟩
      rw [hall, List.mem_append, List.mem_singleton, List.mem_cons, or_assoc]

theorem insertAllOnce_nodup (l : List PlainDateTime) : (insertAllOnce l).Nodup :=
  (foldl_insertCandidateOnce l List.nodup_nil).1

@[simp] theorem mem_insertAllOnce {l : List PlainDateTime} : x ∈ insertAllOnce l ↔ x ∈ l :=
  ((foldl_insertCandidateOnce l List.nodup_nil).2 x).trans (by simp)

theorem sortCandidates_nodup (h : candidates.Nodup) : (sortCandidates candidates).Nodup :=
  (tableSort_perm _ candidates).nodup_iff.mpr h

end Once

section Times

theorem mem_selectedValues {items : Option (List Number)} {start value : Int} :
    value ∈ selectedValues items start ↔ UnitSelected items true start value := by
  unfold selectedValues UnitSelected
  cases items with
  | none => simp
  | some items => simp

theorem timeSelectorAllowed_iff {items : Option (List Number)} (start value : Int) :
    timeSelectorAllowed items value = true ↔ UnitSelected items false start value := by
  unfold timeSelectorAllowed UnitSelected
  cases items with
  | none => simp
  | some items => simp

theorem timeSelectorsAllowed_iff : timeSelectorsAllowed rule candidate = true ↔
    UnitSelected rule.byHour false dtstart.fields.hour candidate.fields.hour ∧
      UnitSelected rule.byMinute false dtstart.fields.minute candidate.fields.minute ∧
        UnitSelected rule.bySecond false dtstart.fields.second candidate.fields.second := by
  unfold timeSelectorsAllowed
  rw [Bool.and_eq_true, Bool.and_eq_true, timeSelectorAllowed_iff dtstart.fields.hour,
    timeSelectorAllowed_iff dtstart.fields.minute, timeSelectorAllowed_iff dtstart.fields.second,
    and_assoc]

/-- A date-time with given fields has the date and the time of the fields. -/
theorem fields_eq_date_iff {hour minute second nanosecond : Int} :
    x.fields = ⟨candidate.fields.year, candidate.fields.month, candidate.fields.day, hour, minute,
        second, nanosecond⟩ ↔ x.date = candidate.date ∧ x.fields.hour = hour ∧
      x.fields.minute = minute ∧ x.fields.second = second ∧ x.fields.nanosecond = nanosecond := by
  have hdate : x.date = candidate.date ↔ x.fields.year = candidate.fields.year ∧
      x.fields.month = candidate.fields.month ∧ x.fields.day = candidate.fields.day := by
    rw [PlainDateTime.fields_year, PlainDateTime.fields_month, PlainDateTime.fields_day]
    exact Date.ext_iff
  rw [hdate]
  constructor
  · intro h
    rw [h]
    exact ⟨⟨rfl, rfl, rfl⟩, rfl, rfl, rfl, rfl⟩
  · rintro ⟨⟨hyear, hmonth, hday⟩, rfl, rfl, rfl, rfl⟩
    rw [← hyear, ← hmonth, ← hday]

theorem mem_expandTimeCandidates (h : needsDuration rule = false) :
    x ∈ expandTimeCandidates rule dtstart candidate ↔
      x.date = candidate.date ∧ TimeSelected rule dtstart x := by
  have hfreq : (rule.freq != .secondly) = true := by
    unfold needsDuration at h
    rw [Bool.or_eq_false_iff, Bool.or_eq_false_iff] at h
    rw [bne, h.1.1]
    rfl
  unfold expandTimeCandidates
  simp only [mem_sortCandidates, mem_insertAllOnce, List.mem_flatMap, List.mem_filterMap,
    buildTimeCandidate_date, mem_selectedValues, fields_eq_date_iff]
  constructor
  · rintro ⟨hour, hhour, minute, hminute, second, hsecond, hdate, rfl, rfl, rfl, hnano⟩
    refine ⟨hdate, ?_, ?_, ?_, hnano⟩
    · rwa [h]
    · rwa [h]
    · rwa [hfreq]
  · rintro ⟨hdate, hhour, hminute, hsecond, hnano⟩
    rw [h] at hhour hminute
    rw [hfreq] at hsecond
    exact ⟨_, hhour, _, hminute, _, hsecond, hdate, rfl, rfl, rfl, hnano⟩

theorem expandTimeCandidates_nodup : (expandTimeCandidates rule dtstart candidate).Nodup :=
  sortCandidates_nodup (insertAllOnce_nodup _)

end Times

section Positions

variable {candidates : List PlainDateTime} {S : Set PlainDateTime}

/-- The members of a set in ascending order are one list. -/
theorem ascending_unique {l m : List PlainDateTime} (hl : l.Pairwise (· < ·))
    (hm : m.Pairwise (· < ·)) (h : ∀ y, y ∈ l ↔ y ∈ m) : l = m := by
  have hfirsts : Firsts none {y | y ∈ m} l := Firsts.of_list hl fun y => (h y).symm
  exact hfirsts.unique (Firsts.of_list hm fun _ => Iff.rfl)

theorem applyBySetPos_spec (hnodup : candidates.Nodup) (hmem : ∀ x, x ∈ candidates ↔ x ∈ S) :
    (applyBySetPos rule candidates).Nodup ∧
      ∀ x, x ∈ applyBySetPos rule candidates ↔ x ∈ positioned rule S := by
  have hsorted := sortCandidates_strict hnodup
  have hmembers : ∀ y, y ∈ sortCandidates candidates ↔ y ∈ S := fun y => by
    rw [mem_sortCandidates, hmem]
  unfold applyBySetPos positioned
  cases rule.bySetPos with
  | none => exact ⟨sortCandidates_nodup hnodup, hmembers⟩
  | some positions =>
    refine ⟨sortCandidates_nodup (insertAllOnce_nodup _), fun x => ?_⟩
    simp only [mem_sortCandidates, mem_insertAllOnce, List.mem_filterMap]
    constructor
    · rintro ⟨position, hposition, hx⟩
      split_ifs at hx with hone
      exact ⟨position, hposition, _, hsorted, hmembers, hone, hx⟩
    · rintro ⟨position, hposition, l, hl, hlS, hone, hx⟩
      obtain rfl := ascending_unique hl hsorted fun y => (hlS y).trans (hmembers y).symm
      exact ⟨position, hposition, by rw [if_pos hone]; exact hx⟩

end Positions

section Days

variable {start : PlainDateTime} {days : Nat} {yearly : Bool} {defaultDay : Option Int}
  {candidates : List PlainDateTime}

theorem date_eq_date_iff : x.date = candidate.date ↔ x.dayNumber = candidate.dayNumber := by
  rw [PlainDateTime.date_eq_iff candidate.date_valid, candidate.dayNumber_date]

/-- What the days from a start on hold. -/
def daysSet (rule : Rule) (dtstart : PlainDateTime) (first : Int) (days : Nat) :
    Set PlainDateTime :=
  {x | (first ≤ x.dayNumber ∧ x.dayNumber < first + days) ∧ DateSelected rule dtstart x.date ∧
    TimeSelected rule dtstart x}

theorem buildDayCandidates_spec (hduration : needsDuration rule = false)
    (htime : start.timeOfDay = dtstart.timeOfDay)
    (hmonth : rule.byMonth = none → defaultsMonth rule = false)
    (hyearly : (yearly && rule.byMonth.isNone) = countsInYear rule)
    (hday : ∀ c : PlainDateTime, start.dayNumber ≤ c.dayNumber →
      c.dayNumber < start.dayNumber + days →
        (defaultMonthDayAllowed rule c defaultDay = true ↔ DaySelected rule dtstart c.date))
    (h : buildDayCandidates rule dtstart start days yearly defaultDay = .ok candidates) :
    candidates.Nodup ∧
      ∀ x, x ∈ candidates ↔ x ∈ positioned rule (daysSet rule dtstart start.dayNumber days) := by
  unfold buildDayCandidates at h
  obtain ⟨lists, hlists, h⟩ := bind_eq_ok.mp h
  obtain rfl := pure_eq_ok.mp h
  have hown : ∀ offset ∈ List.range days, ∀ own, (do
      let candidate ← start.addDays (offset : Nat)
      if ← dateSelectorsAllowed rule candidate dtstart yearly defaultDay then
        pure (expandTimeCandidates rule dtstart candidate)
      else pure []) = Except.ok (ε := String) own →
      own.Nodup ∧ ∀ x, x ∈ own ↔ x.dayNumber = start.dayNumber + offset ∧
        DateSelected rule dtstart x.date ∧ TimeSelected rule dtstart x := by
    intro offset hoffset own hown
    have hlt := List.mem_range.mp hoffset
    obtain ⟨candidate, hcandidate, hown⟩ := bind_eq_ok.mp hown
    obtain ⟨hcandidateDay, hcandidateTime⟩ := PlainDateTime.addDays_eq_ok.mp hcandidate
    obtain ⟨allowed, hallowed, hown⟩ := bind_eq_ok.mp hown
    have hselected := dateSelectorsAllowed_iff (.inr (hcandidateTime.trans htime)) hmonth hyearly
      (hday candidate (by omega) (by omega)) hallowed
    rw [← hcandidateDay]
    split_ifs at hown with hpassed
    · obtain rfl := pure_eq_ok.mp hown
      refine ⟨expandTimeCandidates_nodup, fun x => ?_⟩
      rw [mem_expandTimeCandidates hduration, date_eq_date_iff]
      constructor
      · rintro ⟨hx, htimes⟩
        exact ⟨hx, by rw [date_eq_date_iff.mpr hx]; exact hselected.mp hpassed, htimes⟩
      · rintro ⟨hx, -, htimes⟩
        exact ⟨hx, htimes⟩
    · obtain rfl := pure_eq_ok.mp hown
      refine ⟨List.nodup_nil, fun x => iff_of_false List.not_mem_nil ?_⟩
      rintro ⟨hx, hdates, -⟩
      exact hpassed (hselected.mpr (by rwa [← date_eq_date_iff.mpr hx]))
  obtain ⟨hleft, hright⟩ := flatten_members hlists
  refine applyBySetPos_spec (List.nodup_flatten.mpr ⟨?_, ?_⟩) fun x => ?_
  · intro own hmem
    obtain ⟨offset, hoffset, hok⟩ := (forall₂_members (mapM_eq_ok.mp hlists)).2 own hmem
    exact (hown offset hoffset own hok).1
  · refine forall₂_pairwise (P := fun i j => (i < days ∧ j < days) ∧ i < j) ?_ (mapM_eq_ok.mp hlists) ?_
    · rintro i j a b ⟨⟨hi, hj⟩, hij⟩ ha hb x hxa hxb
      have hxi := ((hown i (List.mem_range.mpr hi) a ha).2 x).mp hxa
      have hxj := ((hown j (List.mem_range.mpr hj) b hb).2 x).mp hxb
      omega
    · refine List.Pairwise.imp_of_mem (fun ha hb hab => ?_) (List.pairwise_lt_range (n := days))
      exact ⟨⟨List.mem_range.mp ha, List.mem_range.mp hb⟩, hab⟩
  · constructor
    · intro hx
      obtain ⟨offset, hoffset, own, hok, hxown⟩ := hright x hx
      obtain ⟨hxday, hselected⟩ := ((hown offset hoffset own hok).2 x).mp hxown
      have hlt := List.mem_range.mp hoffset
      exact ⟨by omega, hselected⟩
    · rintro ⟨hrange, hselected⟩
      have hoffset : (x.dayNumber - start.dayNumber).toNat ∈ List.range days :=
        List.mem_range.mpr (by omega)
      obtain ⟨own, hok, hall⟩ := hleft _ hoffset
      exact hall x (((hown _ hoffset own hok).2 x).mpr ⟨by omega, hselected⟩)

end Days

end Space2.Recurrence
