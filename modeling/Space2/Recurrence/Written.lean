import Space2.Recurrence.RuleText
import Mathlib.Tactic.Linarith

/-!
# What a rule is written as

An accepted rule is accepted again, and its text is its parts in order. The
items of a written list are read back as they are exactly when they are integers.
-/
namespace Space2.Recurrence
open Base

section Lists

theorem mapM_eq_self {α : Type} {validator : Value → Except String α} {encode : α → Value}
    {items : List α} (h : ∀ item ∈ items, validator (encode item) = .ok item) :
    (items.map encode).mapM validator = .ok items := by
  induction items with
  | nil => rfl
  | cons item rest ih =>
    rw [List.map_cons, List.mapM_cons, h item List.mem_cons_self,
      ih fun other hmem => h other (List.mem_cons_of_mem item hmem)]
    rfl

/-- An accepted list is accepted again as it came out. -/
structure ValidList {α : Type} (validator : Value → Except String α) (encode : α → Value)
    (items : List α) : Prop where
  nonempty : items ≠ []
  valid : ∀ item ∈ items, validator (encode item) = .ok item

theorem normalizeList_valid {α : Type} {name : String} {validator : Value → Except String α}
    {encode : α → Value} (hstable : ∀ value item, validator value = .ok item →
      validator (encode item) = .ok item) {value : Option Value} {items : List α}
    (h : normalizeList name validator value = .ok (some items)) :
    ValidList validator encode items := by
  unfold normalizeList at h
  split at h
  · simp at h
  · next values fields =>
    simp only [bind_eq_ok] at h
    obtain ⟨normalized, hnormalized, hitems⟩ := h
    split_ifs at hitems with hempty
    obtain rfl : normalized = items := by simpa using hitems
    refine ⟨fun hnil => hempty (by rw [hnil]; rfl), ?_⟩
    intro item hmem
    obtain ⟨value, -, hvalue⟩ := (forall₂_members (mapM_eq_ok.mp hnormalized)).2 item hmem
    exact hstable value item hvalue
  · cases h

theorem normalizeList_field {α : Type} {name : String} {validator : Value → Except String α}
    {encode : α → Value} {field : Option (List α)}
    (h : ∀ items ∈ field, ValidList validator encode items) :
    normalizeList name validator (field.map fun items => .table (items.map encode) []) =
      .ok field := by
  cases field with
  | none => rfl
  | some items =>
    obtain ⟨hnonempty, hvalid⟩ := h items rfl
    rw [Option.map_some, normalizeList, mapM_eq_self hvalid]
    simp [bind, Except.bind, hnonempty, pure, Except.pure]

end Lists

section Validators

theorem validatePositiveInteger_stable {name name' : String} {value : Value} {n : Number}
    (h : validatePositiveInteger name value = .ok n) :
    validatePositiveInteger name' (.number n) = .ok n := by
  unfold validatePositiveInteger at h ⊢
  split at h
  · split_ifs at h with hvalid
    obtain rfl := pure_eq_ok.mp h
    exact if_pos hvalid
  · cases h

theorem validateIntegerRange_stable {name : String} {min max : Int} (value : Value) (n : Number)
    (h : validateIntegerRange name min max value = .ok n) :
    validateIntegerRange name min max (.number n) = .ok n := by
  unfold validateIntegerRange at h ⊢
  split at h
  · split_ifs at h with hvalid
    obtain rfl := pure_eq_ok.mp h
    exact if_pos hvalid
  · cases h

theorem validateNonzeroIntegerRange_stable {name : String} {min max : Int} (value : Value)
    (n : Number) (h : validateNonzeroIntegerRange name min max value = .ok n) :
    validateNonzeroIntegerRange name min max (.number n) = .ok n := by
  unfold validateNonzeroIntegerRange at h ⊢
  split at h
  · split_ifs at h with hvalid
    obtain rfl := pure_eq_ok.mp h
    exact if_pos hvalid
  · cases h

theorem validateDay_dayValue (name : String) (day : Day) :
    validateDay name (some (dayValue day)) = .ok day := by
  cases day <;> rfl

theorem validateByDayEntry_stable (value : Value) (entry : ByDay)
    (h : validateByDayEntry value = .ok entry) :
    validateByDayEntry (byDayValue entry) = .ok entry := by
  unfold validateByDayEntry at h
  split at h
  · simp only [bind_eq_ok] at h
    obtain ⟨weekday, -, h⟩ := h
    split at h
    · simp only [bind_eq_ok, pure_eq_ok] at h
      obtain ⟨ordinal, hordinal, rfl⟩ := h
      have hvalid := validateNonzeroIntegerRange_stable _ _ hordinal
      have hweekday := validateDay_dayValue "BYDAY" weekday
      simp only [byDayValue, validateByDayEntry, Value.field, List.lookup_cons, beq_self_eq_true,
        hweekday, bind, Except.bind]
      have hname : ("ordinal" == "weekday") = false := by decide
      simp only [hname, hvalid]
      rfl
    · cases h
  · simp only [bind_eq_ok, pure_eq_ok] at h
    obtain ⟨weekday, -, rfl⟩ := h
    rw [byDayValue, dayValue, validateByDayEntry, ← dayValue, validateDay_dayValue]
    · rfl
    · simp

end Validators

/-- What `fromOptions` has checked of a rule. -/
structure Valid (rule : Rule) : Prop where
  interval : validatePositiveInteger "interval" (.number rule.interval) = .ok rule.interval
  count : ∀ n ∈ rule.count, validatePositiveInteger "count" (.number n) = .ok n
  bySecond : ∀ items ∈ rule.bySecond, ValidList validateSecond .number items
  byMinute : ∀ items ∈ rule.byMinute, ValidList validateMinute .number items
  byHour : ∀ items ∈ rule.byHour, ValidList validateHour .number items
  byDay : ∀ days ∈ rule.byDay, ValidList validateByDayEntry byDayValue days
  byMonth : ∀ items ∈ rule.byMonth, ValidList validateMonth .number items
  byMonthDay : ∀ items ∈ rule.byMonthDay, ValidList validateMonthDay .number items
  byYearDay : ∀ items ∈ rule.byYearDay, ValidList validateYearDay .number items
  byWeekNo : ∀ items ∈ rule.byWeekNo, ValidList validateWeekNo .number items
  bySetPos : ∀ items ∈ rule.bySetPos, ValidList validateSetPos .number items

theorem Normalized.valid {options : Options} {rule : Rule} (h : Normalized options rule) :
    Valid rule := by
  have hinterval := h.interval
  have hcount := h.count
  refine ⟨?_, ?_, ?_, ?_, ?_, ?_, ?_, ?_, ?_, ?_, ?_⟩
  · unfold normalizeInterval at hinterval
    split at hinterval
    · obtain hone := pure_eq_ok.mp hinterval
      rw [← hone]
      decide +kernel
    · exact validatePositiveInteger_stable hinterval
  · intro n hn
    unfold normalizeCount at hcount
    split at hcount
    · rw [← pure_eq_ok.mp hcount] at hn
      cases hn
    · obtain ⟨m, hm, hsome⟩ := map_eq_ok.mp hcount
      obtain rfl : m = n := Option.some.inj (hsome.trans hn)
      exact validatePositiveInteger_stable hm
  · exact fun items hitems => normalizeList_valid validateIntegerRange_stable (hitems ▸ h.bySecond)
  · exact fun items hitems => normalizeList_valid validateIntegerRange_stable (hitems ▸ h.byMinute)
  · exact fun items hitems => normalizeList_valid validateIntegerRange_stable (hitems ▸ h.byHour)
  · exact fun days hdays => normalizeList_valid validateByDayEntry_stable (hdays ▸ h.byDay)
  · exact fun items hitems => normalizeList_valid validateIntegerRange_stable (hitems ▸ h.byMonth)
  · exact fun items hitems =>
      normalizeList_valid validateNonzeroIntegerRange_stable (hitems ▸ h.byMonthDay)
  · exact fun items hitems =>
      normalizeList_valid validateNonzeroIntegerRange_stable (hitems ▸ h.byYearDay)
  · exact fun items hitems =>
      normalizeList_valid validateNonzeroIntegerRange_stable (hitems ▸ h.byWeekNo)
  · exact fun items hitems =>
      normalizeList_valid validateNonzeroIntegerRange_stable (hitems ▸ h.bySetPos)

section Texts

/-- The value of a written part, or that the part is left out. -/
def partValue (rule : Rule) : OptionKey → Option Text
  | .freq => some rule.freq.rrule
  | .interval => if rule.interval.value = .finite 1 then none else some (numberText rule.interval)
  | .count => rule.count.map numberText
  | .untilText => rule.untilText
  | .bySecond => rule.bySecond.map fun items => join (items.map numberText) ','
  | .byMinute => rule.byMinute.map fun items => join (items.map numberText) ','
  | .byHour => rule.byHour.map fun items => join (items.map numberText) ','
  | .byDay => rule.byDay.map fun days => join (days.map byDayText) ','
  | .byMonth => rule.byMonth.map fun items => join (items.map numberText) ','
  | .byMonthDay => rule.byMonthDay.map fun items => join (items.map numberText) ','
  | .byYearDay => rule.byYearDay.map fun items => join (items.map numberText) ','
  | .byWeekNo => rule.byWeekNo.map fun items => join (items.map numberText) ','
  | .bySetPos => rule.bySetPos.map fun items => join (items.map numberText) ','
  | .weekStart => if rule.weekStart = .mo then none else some rule.weekStart.rrule

def rruleParts (rule : Rule) : List (OptionKey × Text) :=
  OptionKey.order.filterMap fun key => (partValue rule key).map (key, ·)

def rruleText (rule : Rule) : Text :=
  rrulePrefix ++ join ((rruleParts rule).map fun part => partText part.1 part.2) ';'

theorem serializeIntegerList_eq {validator : Value → Except String Number} {items : List Number}
    (h : ValidList validator .number items) :
    serializeIntegerList items validator = .ok (join (items.map numberText) ',') := by
  have hmap : items.mapM (fun value => do pure (numberText (← validator (.number value)))) =
      .ok (items.map numberText) := by
    rw [mapM_eq_ok, List.forall₂_map_right_iff]
    refine List.forall₂_same.mpr fun item hmem => ?_
    rw [h.valid item hmem]
    rfl
  rw [serializeIntegerList, hmap]
  rfl

theorem serializeByDay_eq {days : List ByDay} (h : ValidList validateByDayEntry byDayValue days) :
    serializeByDay days = .ok (join (days.map byDayText) ',') := by
  have hmap : days.mapM (fun entry => do
      pure (byDayText (← validateByDayEntry (byDayValue entry)))) = .ok (days.map byDayText) := by
    rw [mapM_eq_ok, List.forall₂_map_right_iff]
    refine List.forall₂_same.mpr fun item hmem => ?_
    rw [h.valid item hmem]
    rfl
  rw [serializeByDay, hmap]
  rfl

theorem mapM_option_eq {α : Type} {field : Option α} {write : α → Except String Text}
    {text : α → Text} (h : ∀ a ∈ field, write a = .ok (text a)) :
    field.mapM write = .ok (field.map text) := by
  cases field with
  | none => rfl
  | some a =>
    have ha := h a rfl
    simp only [Option.mapM, ha]
    rfl

theorem Valid.serializePart_eq {rule : Rule} (h : Valid rule) (key : OptionKey) :
    serializePart rule key = .ok (partValue rule key) := by
  cases key with
  | freq => rfl
  | interval => unfold serializePart partValue; split_ifs <;> rfl
  | count => rfl
  | untilText => rfl
  | bySecond => exact mapM_option_eq fun items hmem => serializeIntegerList_eq (h.bySecond items hmem)
  | byMinute => exact mapM_option_eq fun items hmem => serializeIntegerList_eq (h.byMinute items hmem)
  | byHour => exact mapM_option_eq fun items hmem => serializeIntegerList_eq (h.byHour items hmem)
  | byDay => exact mapM_option_eq fun days hmem => serializeByDay_eq (h.byDay days hmem)
  | byMonth => exact mapM_option_eq fun items hmem => serializeIntegerList_eq (h.byMonth items hmem)
  | byMonthDay =>
    exact mapM_option_eq fun items hmem => serializeIntegerList_eq (h.byMonthDay items hmem)
  | byYearDay =>
    exact mapM_option_eq fun items hmem => serializeIntegerList_eq (h.byYearDay items hmem)
  | byWeekNo => exact mapM_option_eq fun items hmem => serializeIntegerList_eq (h.byWeekNo items hmem)
  | bySetPos => exact mapM_option_eq fun items hmem => serializeIntegerList_eq (h.bySetPos items hmem)
  | weekStart => unfold serializePart partValue; split_ifs <;> rfl

/-- A rule is accepted again as it is. -/
theorem Valid.normalized {rule : Rule} (h : Valid rule) : Normalized rule.options rule where
  unknown := rfl
  freq := by
    change normalizeFreq (some (.string rule.freq.name.toList)) = _
    cases rule.freq <;> rfl
  interval := h.interval
  weekStart := validateDay_dayValue "WKST" rule.weekStart
  count := by
    have hcount := h.count
    change normalizeCount (rule.count.map .number) = _
    cases hfield : rule.count with
    | none => rfl
    | some n =>
      have hn := hcount n hfield
      simp only [Option.map_some, normalizeCount, hn]
      rfl
  untilText := by
    change normalizeUntil (rule.untilText.map .string) = _
    cases rule.untilText <;> rfl
  bySecond := normalizeList_field h.bySecond
  byMinute := normalizeList_field h.byMinute
  byHour := normalizeList_field h.byHour
  byDay := normalizeList_field h.byDay
  byMonth := normalizeList_field h.byMonth
  byMonthDay := normalizeList_field h.byMonthDay
  byYearDay := normalizeList_field h.byYearDay
  byWeekNo := normalizeList_field h.byWeekNo
  bySetPos := normalizeList_field h.bySetPos

theorem Valid.toRrule_eq {rule : Rule} (h : Valid rule) :
    toRrule rule.options = .ok (rruleText rule) := by
  have hparts : OptionKey.order.mapM (fun key => do
      pure ((← serializePart rule key).map (partText key))) =
        .ok (OptionKey.order.map fun key => (partValue rule key).map (partText key)) := by
    rw [mapM_eq_ok, List.forall₂_map_right_iff]
    refine List.forall₂_same.mpr fun key _ => ?_
    rw [h.serializePart_eq key]
    rfl
  have hwritten : (OptionKey.order.map fun key => (partValue rule key).map (partText key)).filterMap
      id = (rruleParts rule).map fun part => partText part.1 part.2 := by
    rw [rruleParts, List.map_filterMap, List.filterMap_map]
    congr 1
    funext key
    simp [Option.map_map, Function.comp_def]
  rw [toRrule, bind_eq_ok]
  refine ⟨rule, fromOptions_eq_ok.mpr h.normalized, bind_eq_ok.mpr ⟨_, hparts, ?_⟩⟩
  rw [hwritten]
  rfl

end Texts

section Reading

def Number.IsInteger (n : Number) : Prop := ∃ i, n = .integer i

theorem splitNonempty_join {parts : List Text} {separator : Char} (hnonempty : parts ≠ [])
    (h : ∀ part ∈ parts, part ≠ [] ∧ separator ∉ part) :
    splitNonempty (join parts separator) separator = .ok parts := by
  have hsplit : (join parts separator).splitOn separator = parts :=
    List.splitOn_intercalate separator (fun part hmem => (h part hmem).2) hnonempty
  have hfull : ¬ (parts.any List.isEmpty = true) := by
    rw [List.any_eq_true]
    rintro ⟨part, hmem, hempty⟩
    exact (h part hmem).1 (List.isEmpty_iff.mp hempty)
  rw [splitNonempty, hsplit]
  exact if_neg hfull

theorem numberText_ne_nil (n : Number) : numberText n ≠ [] := by
  intro hnil
  cases n with
  | integer i =>
    have hsigned := isSignedDigits_integerText i.toInt
    rw [numberText] at hnil
    rw [hnil] at hsigned
    exact absurd hsigned (by decide)
  | float x =>
    cases x with
    | finite q =>
      rw [numberText] at hnil
      rcases (integralFloatText_spec ⌊q⌋).2 with hmem | hmem <;> simp [hnil] at hmem
    | infinite negative => cases negative <;> simp [numberText] at hnil
    | nan => simp [numberText] at hnil

theorem not_mem_numberText {n : Number} {c : Char} (h : isNumberChar c = false) :
    c ∉ numberText n := by
  intro hmem
  rw [isNumberChar_of_mem_numberText hmem] at h
  cases h

theorem parseSignedInteger_numberText {n m : Number} {name : String} :
    parseSignedInteger (numberText n) name = .ok m ↔ Number.IsInteger n ∧ m = n := by
  unfold parseSignedInteger
  split_ifs with hsigned
  · obtain ⟨i, rfl⟩ := isSignedDigits_numberText.mp hsigned
    have hread : tonumber (numberText (.integer i)) = .integer i := tonumber_integerText i
    rw [hread, pure_eq_ok]
    exact ⟨fun h => ⟨⟨i, rfl⟩, h.symm⟩, fun h => h.2.symm⟩
  · simp only [false_iff]
    exact fun h => hsigned (isSignedDigits_numberText.mpr h.1)

theorem positive_integer {i : Int64} {name : String}
    (h : validatePositiveInteger name (.number (.integer i)) = .ok (.integer i)) : 0 < i.toInt := by
  dsimp only [validatePositiveInteger] at h
  split_ifs at h with hvalid
  have hpositive := (Bool.and_eq_true_iff.mp hvalid).2
  simpa [Number.isPositive, Number.value] using hpositive

theorem parsePositiveInteger_numberText {n m : Number} {name name' : String}
    (h : validatePositiveInteger name' (.number n) = .ok n) :
    parsePositiveInteger (numberText n) name = .ok m ↔ Number.IsInteger n ∧ m = n := by
  unfold parsePositiveInteger
  split_ifs with hdigits
  · obtain ⟨i, rfl⟩ := isSignedDigits_numberText.mp (isSignedDigits_of_isDigits hdigits)
    have hread : tonumber (numberText (.integer i)) = .integer i := tonumber_integerText i
    rw [hread, validatePositiveInteger_stable h, Except.ok.injEq]
    exact ⟨fun h => ⟨⟨i, rfl⟩, h.symm⟩, fun h => h.2.symm⟩
  · simp only [false_iff]
    rintro ⟨⟨i, rfl⟩, -⟩
    have hpositive := positive_integer h
    exact hdigits (isDigits_integerText (by omega))

/-- A loop over the written items of a valid list reads it back when each item is read back. -/
theorem mapM_written {α β : Type} {items : List α} {write : α → β} {read : β → Except String α}
    {good : α → Prop} (h : ∀ item ∈ items, ∀ found, read (write item) = .ok found ↔
      good item ∧ found = item) (found : List α) :
    (items.map write).mapM read = .ok found ↔ (∀ item ∈ items, good item) ∧ found = items := by
  induction items generalizing found with
  | nil => simp [eq_comm, pure, Except.pure]
  | cons item rest ih =>
    have hrest := ih fun other hmem => h other (List.mem_cons_of_mem item hmem)
    rw [List.map_cons, List.mapM_cons]
    simp only [bind_eq_ok, pure_eq_ok, h item List.mem_cons_self, hrest, List.forall_mem_cons]
    constructor
    · rintro ⟨_, ⟨hitem, rfl⟩, _, ⟨hall, rfl⟩, rfl⟩
      exact ⟨⟨hitem, hall⟩, rfl⟩
    · rintro ⟨⟨hitem, hall⟩, rfl⟩
      exact ⟨_, ⟨hitem, rfl⟩, _, ⟨hall, rfl⟩, rfl⟩

theorem splitNonempty_numbers {items : List Number} (h : items ≠ []) :
    splitNonempty (join (items.map numberText) ',') ',' = .ok (items.map numberText) := by
  refine splitNonempty_join (by simpa using h) fun part hmem => ?_
  obtain ⟨n, -, rfl⟩ := List.mem_map.mp hmem
  exact ⟨numberText_ne_nil n, not_mem_numberText (by decide)⟩

theorem parseIntegerList_written {validator : Value → Except String Number} {name : String}
    {items : List Number} (h : ValidList validator .number items) (found : List Number) :
    parseIntegerList (join (items.map numberText) ',') name validator = .ok found ↔
      (∀ n ∈ items, Number.IsInteger n) ∧ found = items := by
  rw [parseIntegerList, splitNonempty_numbers h.nonempty]
  refine mapM_written (fun n hmem m => ?_) found
  simp only [bind_eq_ok, parseSignedInteger_numberText]
  constructor
  · rintro ⟨_, ⟨hinteger, rfl⟩, hvalid⟩
    rw [h.valid _ hmem] at hvalid
    exact ⟨hinteger, (Except.ok.inj hvalid).symm⟩
  · rintro ⟨hinteger, rfl⟩
    exact ⟨m, ⟨hinteger, rfl⟩, h.valid m hmem⟩

theorem validateMonth_positive {n : Number} {name : String}
    (h : validateMonth (.number n) = .ok n) : validatePositiveInteger name (.number n) = .ok n := by
  dsimp only [validateMonth, validateIntegerRange, validatePositiveInteger] at h ⊢
  split_ifs at h with hvalid
  obtain ⟨hintegral, hbetween⟩ := Bool.and_eq_true_iff.mp hvalid
  have hpositive : n.isPositive = true := by
    unfold Number.isBetween at hbetween
    unfold Number.isPositive
    split at hbetween
    · next q hq =>
      simp only [Bool.and_eq_true, decide_eq_true_eq] at hbetween ⊢
      have hone : (1 : ℚ) ≤ q := by exact_mod_cast hbetween.1
      linarith
    · cases hbetween
    · cases hbetween
  rw [hintegral, hpositive]
  rfl

theorem parseByMonth_written {items : List Number} (h : ValidList validateMonth .number items)
    (found : List Number) :
    parseByMonth (join (items.map numberText) ',') = .ok found ↔
      (∀ n ∈ items, Number.IsInteger n) ∧ found = items := by
  rw [parseByMonth, splitNonempty_numbers h.nonempty]
  refine mapM_written (fun n hmem m => ?_) found
  have hmonth := h.valid n hmem
  simp only [bind_eq_ok, parsePositiveInteger_numberText (@validateMonth_positive n "BYMONTH" hmonth)]
  constructor
  · rintro ⟨_, ⟨hinteger, rfl⟩, hvalid⟩
    rw [hmonth] at hvalid
    exact ⟨hinteger, (Except.ok.inj hvalid).symm⟩
  · rintro ⟨hinteger, rfl⟩
    exact ⟨m, ⟨hinteger, rfl⟩, hmonth⟩

def ByDay.ordinals : ByDay → List Number
  | .every _ => []
  | .nth _ ordinal => [ordinal]

theorem rruleToDay_rrule (day : Day) : rruleToDay day.rrule = some day := by cases day <;> rfl

theorem rrule_length (day : Day) : day.rrule.length = 2 := by cases day <;> rfl

theorem validateByDayEntry_ordinal {weekday : Day} {ordinal : Number}
    (h : validateByDayEntry (byDayValue (.nth weekday ordinal)) = .ok (.nth weekday ordinal)) :
    validateNonzeroIntegerRange "BYDAY" (-53) 53 (.number ordinal) = .ok ordinal := by
  have hname : ("ordinal" == "weekday") = false := by decide
  simp only [byDayValue, validateByDayEntry, Value.field, List.lookup_cons, beq_self_eq_true,
    hname, bind_eq_ok, pure_eq_ok] at h
  obtain ⟨_, -, found, hfound, heq⟩ := h
  obtain ⟨-, rfl⟩ := ByDay.nth.inj heq
  exact hfound

theorem byDayText_fine (day : ByDay) : byDayText day ≠ [] ∧ ',' ∉ byDayText day := by
  have hrrule : ∀ weekday : Day, weekday.rrule ≠ [] ∧ ',' ∉ weekday.rrule := by
    intro weekday
    cases weekday <;> decide
  cases day with
  | every weekday => exact hrrule weekday
  | nth weekday ordinal =>
    refine ⟨List.append_ne_nil_of_right_ne_nil _ (hrrule weekday).1, fun hmem => ?_⟩
    rcases List.mem_append.mp hmem with hmem | hmem
    · exact not_mem_numberText (by decide) hmem
    · exact (hrrule weekday).2 hmem

theorem parseByDayToken_written {entry : ByDay}
    (h : validateByDayEntry (byDayValue entry) = .ok entry) (found : ByDay) :
    parseByDayToken (byDayText entry) = .ok found ↔
      (∀ n ∈ entry.ordinals, Number.IsInteger n) ∧ found = entry := by
  cases entry with
  | every weekday =>
    rw [byDayText, parseByDayToken, rruleToDay_rrule]
    simp [ByDay.ordinals, pure, Except.pure, eq_comm]
  | nth weekday ordinal =>
    have hlength := List.length_pos_iff.mpr (numberText_ne_nil ordinal)
    have hweekday := rrule_length weekday
    have hlong : rruleToDay (numberText ordinal ++ weekday.rrule) = none := by
      rw [rruleToDay, List.find?_eq_none]
      intro day _ heq
      have hday := congrArg List.length (eq_of_beq heq)
      rw [List.length_append, rrule_length, rrule_length] at hday
      omega
    have htake : (numberText ordinal ++ weekday.rrule).take
        ((numberText ordinal ++ weekday.rrule).length - 2) = numberText ordinal := by
      rw [List.length_append, hweekday, Nat.add_sub_cancel, List.take_left]
    have hdrop : (numberText ordinal ++ weekday.rrule).drop
        ((numberText ordinal ++ weekday.rrule).length - 2) = weekday.rrule := by
      rw [List.length_append, hweekday, Nat.add_sub_cancel, List.drop_left]
    have hupper : weekday.rrule.all Char.isUpper = true := by cases weekday <;> rfl
    have hordinal := validateByDayEntry_ordinal h
    simp only [byDayText, parseByDayToken, hlong, ordinalAndWeekday, htake, hdrop, hweekday,
      hupper, ByDay.ordinals, List.forall_mem_singleton]
    by_cases hsigned : isSignedDigits (numberText ordinal) = true
    · simp only [hsigned, and_self, if_true, rruleToDay_rrule, bind_eq_ok,
        parseSignedInteger_numberText, pure_eq_ok]
      constructor
      · rintro ⟨_, ⟨hinteger, rfl⟩, _, hvalid, rfl⟩
        rw [hordinal] at hvalid
        exact ⟨hinteger, by rw [Except.ok.inj hvalid]⟩
      · rintro ⟨hinteger, rfl⟩
        exact ⟨ordinal, ⟨hinteger, rfl⟩, ordinal, hordinal, rfl⟩
    · rw [if_neg fun hall => hsigned hall.1]
      refine ⟨fun hread => ?_, fun hboth => ?_⟩
      · cases hread
      · exact absurd (isSignedDigits_numberText.mpr hboth.1) hsigned

theorem parseByDay_written {days : List ByDay}
    (h : ValidList validateByDayEntry byDayValue days) (found : List ByDay) :
    parseByDay (join (days.map byDayText) ',') = .ok found ↔
      (∀ day ∈ days, ∀ n ∈ day.ordinals, Number.IsInteger n) ∧ found = days := by
  have hsplit : splitNonempty (join (days.map byDayText) ',') ',' = .ok (days.map byDayText) := by
    refine splitNonempty_join (by simpa using h.nonempty) fun part hmem => ?_
    obtain ⟨day, -, rfl⟩ := List.mem_map.mp hmem
    exact byDayText_fine day
  rw [parseByDay, hsplit]
  exact mapM_written (fun day hmem => parseByDayToken_written (h.valid day hmem)) found

end Reading

end Space2.Recurrence
