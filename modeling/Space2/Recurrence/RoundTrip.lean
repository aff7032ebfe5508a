import Space2.Recurrence.Written

/-!
# Reading back what was written

A rule is read back as itself when its numbers are integers and its UNTIL can
stand in a part. A double is never read back: its text is not that of an
integer. An UNTIL that is empty or holds a semicolon is cut or refused.
-/
namespace Space2.Recurrence
open Base

section Joining

theorem not_mem_join {parts : List Text} {separator c : Char} (hc : c ≠ separator)
    (h : ∀ part ∈ parts, c ∉ part) : c ∉ join parts separator := by
  unfold join
  induction parts with
  | nil => exact List.not_mem_nil
  | cons part rest ih =>
    rw [List.forall_mem_cons] at h
    cases rest with
    | nil =>
      rw [List.intercalate_singleton]
      exact h.1
    | cons next rest =>
      rw [List.intercalate_cons_cons]
      simp only [List.mem_append, List.mem_singleton, not_or]
      exact ⟨⟨h.1, hc⟩, ih h.2⟩

theorem join_ne_nil {parts : List Text} {separator : Char} (hnonempty : parts ≠ [])
    (h : ∀ part ∈ parts, part ≠ []) : join parts separator ≠ [] := by
  unfold join
  cases parts with
  | nil => exact absurd rfl hnonempty
  | cons part rest =>
    rw [List.forall_mem_cons] at h
    cases rest with
    | nil =>
      rw [List.intercalate_singleton]
      exact h.1
    | cons next rest =>
      rw [List.intercalate_cons_cons]
      exact List.append_ne_nil_of_left_ne_nil (List.append_ne_nil_of_left_ne_nil h.1 _) _

theorem Freq.rrule_fine (freq : Freq) : freq.rrule ≠ [] ∧ ';' ∉ freq.rrule := by
  cases freq <;> decide

theorem Day.rrule_fine (day : Day) : day.rrule ≠ [] ∧ ';' ∉ day.rrule := by
  cases day <;> decide

theorem numberText_fine (n : Number) : numberText n ≠ [] ∧ ';' ∉ numberText n :=
  ⟨numberText_ne_nil n, not_mem_numberText (by decide)⟩

theorem join_fine {α : Type} {items : List α} {text : α → Text} (hnonempty : items ≠ [])
    (h : ∀ item, text item ≠ [] ∧ ';' ∉ text item) :
    join (items.map text) ',' ≠ [] ∧ ';' ∉ join (items.map text) ',' := by
  constructor
  · refine join_ne_nil (by simpa using hnonempty) fun part hmem => ?_
    obtain ⟨item, -, rfl⟩ := List.mem_map.mp hmem
    exact (h item).1
  · refine not_mem_join (by decide) fun part hmem => ?_
    obtain ⟨item, -, rfl⟩ := List.mem_map.mp hmem
    exact (h item).2

theorem byDayText_no_semicolon (day : ByDay) : byDayText day ≠ [] ∧ ';' ∉ byDayText day := by
  cases day with
  | every weekday => exact Day.rrule_fine weekday
  | nth weekday ordinal =>
    refine ⟨(byDayText_fine (.nth weekday ordinal)).1, fun hmem => ?_⟩
    rcases List.mem_append.mp hmem with hmem | hmem
    · exact (numberText_fine ordinal).2 hmem
    · exact (Day.rrule_fine weekday).2 hmem

/-- Only an UNTIL may be empty or hold what separates the parts. -/
theorem Valid.partValue_fine {rule : Rule} (h : Valid rule) {key : OptionKey} {text : Text}
    (hkey : key ≠ .untilText) (hpart : partValue rule key = some text) :
    text ≠ [] ∧ ';' ∉ text := by
  have hlist : ∀ {field : Option (List Number)} {validator : Value → Except String Number},
      (∀ items ∈ field, ValidList validator .number items) →
      field.map (fun items => join (items.map numberText) ',') = some text →
      text ≠ [] ∧ ';' ∉ text := by
    intro field validator hvalid hfield
    obtain ⟨items, hitems, rfl⟩ := Option.map_eq_some_iff.mp hfield
    exact join_fine (hvalid items hitems).nonempty numberText_fine
  cases key with
  | freq =>
    obtain rfl := Option.some.inj hpart
    exact rule.freq.rrule_fine
  | interval =>
    dsimp only [partValue] at hpart
    split_ifs at hpart
    obtain rfl := Option.some.inj hpart
    exact numberText_fine rule.interval
  | count =>
    obtain ⟨n, -, rfl⟩ := Option.map_eq_some_iff.mp hpart
    exact numberText_fine n
  | untilText => exact absurd rfl hkey
  | bySecond => exact hlist h.bySecond hpart
  | byMinute => exact hlist h.byMinute hpart
  | byHour => exact hlist h.byHour hpart
  | byDay =>
    obtain ⟨days, hdays, rfl⟩ := Option.map_eq_some_iff.mp hpart
    exact join_fine (h.byDay days hdays).nonempty byDayText_no_semicolon
  | byMonth => exact hlist h.byMonth hpart
  | byMonthDay => exact hlist h.byMonthDay hpart
  | byYearDay => exact hlist h.byYearDay hpart
  | byWeekNo => exact hlist h.byWeekNo hpart
  | bySetPos => exact hlist h.bySetPos hpart
  | weekStart =>
    dsimp only [partValue] at hpart
    split_ifs at hpart
    obtain rfl := Option.some.inj hpart
    exact rule.weekStart.rrule_fine

end Joining

section Parts

theorem rruleToKey_rrule (key : OptionKey) : rruleToKey key.rrule = some key := by
  cases key <;> rfl

theorem OptionKey.rrule_injective {key other : OptionKey} (h : key.rrule = other.rrule) :
    key = other := by
  have hkey := rruleToKey_rrule key
  rw [h, rruleToKey_rrule other] at hkey
  exact (Option.some.inj hkey).symm

theorem OptionKey.rrule_fine (key : OptionKey) :
    key.rrule ≠ [] ∧ '=' ∉ key.rrule ∧ ';' ∉ key.rrule := by
  cases key <;> decide

theorem collectPair_partText {collected : Collected} {key : OptionKey} {text : Text}
    {next : Collected} (hnew : key.rrule ∉ collected.seen) :
    collectPair collected (partText key text) = .ok next ↔
      text ≠ [] ∧ ∃ parsed, parseValue text key = .ok parsed ∧
        next = ⟨key.rrule :: collected.seen,
          Function.update collected.value key (some parsed)⟩ := by
  obtain ⟨hnonempty, hequals, -⟩ := key.rrule_fine
  have hall : ∀ c ∈ key.rrule, (c != '=') = true := by
    intro c hc
    simpa using fun heq : c = '=' => hequals (heq ▸ hc)
  have htake : (partText key text).takeWhile (· != '=') = key.rrule := by
    rw [partText, List.takeWhile_append_of_pos hall]
    simp
  have hdrop : (partText key text).dropWhile (· != '=') = '=' :: text := by
    rw [partText, List.dropWhile_append_of_pos hall]
    simp
  have hmem : '=' ∈ partText key text := List.mem_append_right _ List.mem_cons_self
  unfold collectPair
  rw [if_neg (not_not_intro hmem)]
  simp only [htake, hdrop, List.tail_cons, hnonempty, false_or, rruleToKey_rrule]
  split_ifs with hempty
  · simp [hempty]
  · simp only [bind_eq_ok, pure_eq_ok, hempty, ne_eq, not_false_eq_true, true_and,
      @eq_comm _ next]

theorem rrule_not_seen {part : OptionKey × Text} {rest : List (OptionKey × Text)}
    {seen : List Text} (hkey : part.1 ∉ rest.map Prod.fst)
    (hnew : ∀ other ∈ rest, other.1.rrule ∉ seen) :
    ∀ other ∈ rest, other.1.rrule ∉ part.1.rrule :: seen := by
  intro other hmem hother
  rcases List.mem_cons.mp hother with heq | hother
  · refine hkey ?_
    rw [← OptionKey.rrule_injective heq]
    exact List.mem_map_of_mem hmem
  · exact hnew other hmem hother

/-- Parts of distinct keys are read one by one, each setting its own option. -/
theorem collect_parts {parts : List (OptionKey × Text)} {start final : Collected}
    (hkeys : (parts.map Prod.fst).Nodup) (hnew : ∀ part ∈ parts, part.1.rrule ∉ start.seen)
    (h : (parts.map fun part => partText part.1 part.2).foldlM collectPair start = .ok final) :
    (∀ part ∈ parts, part.2 ≠ [] ∧ ∃ parsed, parseValue part.2 part.1 = .ok parsed ∧
      final.value part.1 = some parsed) ∧
    ∀ key ∉ parts.map Prod.fst, final.value key = start.value key := by
  induction parts generalizing start with
  | nil =>
    obtain rfl := pure_eq_ok.mp h
    exact ⟨nofun, fun _ _ => rfl⟩
  | cons part rest ih =>
    rw [List.map_cons, List.nodup_cons] at hkeys
    rw [List.forall_mem_cons] at hnew
    rw [List.map_cons, List.foldlM_cons, bind_eq_ok] at h
    obtain ⟨next, hstep, hrest⟩ := h
    obtain ⟨htext, parsed, hparsed, rfl⟩ := (collectPair_partText hnew.1).mp hstep
    have hseen := rrule_not_seen hkeys.1 hnew.2
    obtain ⟨hread, hframe⟩ := ih hkeys.2 hseen hrest
    refine ⟨List.forall_mem_cons.mpr ⟨⟨htext, parsed, hparsed, ?_⟩, hread⟩, ?_⟩
    · rw [hframe part.1 hkeys.1]
      exact Function.update_self ..
    · intro key hkey
      rw [List.map_cons, List.mem_cons, not_or] at hkey
      rw [hframe key hkey.2]
      exact Function.update_of_ne hkey.1 ..

theorem collect_parts_succeeds {parts : List (OptionKey × Text)} {start : Collected}
    (hkeys : (parts.map Prod.fst).Nodup) (hnew : ∀ part ∈ parts, part.1.rrule ∉ start.seen)
    (h : ∀ part ∈ parts, part.2 ≠ [] ∧ ∃ parsed, parseValue part.2 part.1 = .ok parsed) :
    ∃ final, (parts.map fun part => partText part.1 part.2).foldlM collectPair start =
      .ok final := by
  induction parts generalizing start with
  | nil => exact ⟨start, rfl⟩
  | cons part rest ih =>
    rw [List.map_cons, List.nodup_cons] at hkeys
    rw [List.forall_mem_cons] at hnew h
    obtain ⟨⟨htext, parsed, hparsed⟩, hall⟩ := h
    have hseen := rrule_not_seen hkeys.1 hnew.2
    obtain ⟨final, hfinal⟩ := @ih ⟨part.1.rrule :: start.seen,
      Function.update start.value part.1 (some parsed)⟩ hkeys.2 hseen hall
    refine ⟨final, ?_⟩
    rw [List.map_cons, List.foldlM_cons, bind_eq_ok]
    exact ⟨_, (collectPair_partText hnew.1).mpr ⟨htext, parsed, hparsed, rfl⟩, hfinal⟩

end Parts

section Reading

/-- The numbers a part is written with. -/
def Rule.numbers (rule : Rule) : OptionKey → List Number
  | .interval => if rule.interval.value = .finite 1 then [] else [rule.interval]
  | .count => rule.count.toList
  | .bySecond => rule.bySecond.getD []
  | .byMinute => rule.byMinute.getD []
  | .byHour => rule.byHour.getD []
  | .byDay => (rule.byDay.getD []).flatMap ByDay.ordinals
  | .byMonth => rule.byMonth.getD []
  | .byMonthDay => rule.byMonthDay.getD []
  | .byYearDay => rule.byYearDay.getD []
  | .byWeekNo => rule.byWeekNo.getD []
  | .bySetPos => rule.bySetPos.getD []
  | .freq | .untilText | .weekStart => []

structure Writable (rule : Rule) : Prop where
  numbers : ∀ key, ∀ n ∈ rule.numbers key, Number.IsInteger n
  untilText : ∀ text ∈ rule.untilText, text ≠ [] ∧ ';' ∉ text

theorem read_list {validator : Value → Except String Number} {name : String}
    {field : Option (List Number)} {text : Text}
    (h : ∀ items ∈ field, ValidList validator .number items)
    (hpart : field.map (fun items => join (items.map numberText) ',') = some text)
    (parsed : Value) :
    numbersValue <$> parseIntegerList text name validator = .ok parsed ↔
      (∀ n ∈ field.getD [], Number.IsInteger n) ∧ field.map numbersValue = some parsed := by
  obtain ⟨items, rfl, rfl⟩ := Option.map_eq_some_iff.mp hpart
  simp only [map_eq_ok, parseIntegerList_written (h items rfl), Option.getD_some, Option.map_some,
    Option.some.injEq]
  constructor
  · rintro ⟨_, ⟨hall, rfl⟩, hvalue⟩
    exact ⟨hall, hvalue⟩
  · rintro ⟨hall, hvalue⟩
    exact ⟨items, ⟨hall, rfl⟩, hvalue⟩

theorem read_positive {name name' : String} {n : Number}
    (h : validatePositiveInteger name' (.number n) = .ok n) (parsed : Value) :
    Value.number <$> parsePositiveInteger (numberText n) name = .ok parsed ↔
      Number.IsInteger n ∧ Value.number n = parsed := by
  simp only [map_eq_ok, parsePositiveInteger_numberText h]
  constructor
  · rintro ⟨_, ⟨hinteger, rfl⟩, hvalue⟩
    exact ⟨hinteger, hvalue⟩
  · rintro ⟨hinteger, hvalue⟩
    exact ⟨n, ⟨hinteger, rfl⟩, hvalue⟩

/-- A written part is read when its numbers are integers, and then as the rule has it. -/
theorem Valid.parseValue_written {rule : Rule} (h : Valid rule) {key : OptionKey} {text : Text}
    (hpart : partValue rule key = some text) (parsed : Value) :
    parseValue text key = .ok parsed ↔
      (∀ n ∈ rule.numbers key, Number.IsInteger n) ∧ rule.options.value key = some parsed := by
  cases key with
  | freq =>
    obtain rfl := Option.some.inj hpart
    have hread : parseValue rule.freq.rrule .freq = .ok (.string rule.freq.name.toList) := by
      cases rule.freq <;> rfl
    rw [hread]
    simp [Rule.numbers, Rule.options]
  | interval =>
    dsimp only [partValue] at hpart
    split_ifs at hpart with hone
    obtain rfl := Option.some.inj hpart
    simp only [parseValue, read_positive h.interval, Rule.numbers, if_neg hone,
      List.forall_mem_singleton, Rule.options, Option.some.injEq]
  | count =>
    obtain ⟨n, hn, rfl⟩ := Option.map_eq_some_iff.mp hpart
    simp only [parseValue, read_positive (h.count n hn), Rule.numbers, hn, Option.toList_some,
      List.forall_mem_singleton, Rule.options, Option.map_some, Option.some.injEq]
  | untilText =>
    have huntil : rule.untilText = some text := hpart
    simp [parseValue, Rule.numbers, Rule.options, huntil]
  | bySecond => exact read_list h.bySecond hpart parsed
  | byMinute => exact read_list h.byMinute hpart parsed
  | byHour => exact read_list h.byHour hpart parsed
  | byDay =>
    obtain ⟨days, hdays, rfl⟩ := Option.map_eq_some_iff.mp hpart
    simp only [parseValue, bind_eq_ok, pure_eq_ok, parseByDay_written (h.byDay days hdays),
      Rule.numbers, hdays, Option.getD_some, List.mem_flatMap, Rule.options, Option.map_some,
      Option.some.injEq]
    constructor
    · rintro ⟨_, ⟨hall, rfl⟩, hvalue⟩
      refine ⟨fun n hn => ?_, hvalue⟩
      obtain ⟨day, hday, hmem⟩ := hn
      exact hall day hday n hmem
    · rintro ⟨hall, hvalue⟩
      exact ⟨days, ⟨fun day hday n hn => hall n ⟨day, hday, hn⟩, rfl⟩, hvalue⟩
  | byMonth =>
    obtain ⟨months, hmonths, rfl⟩ := Option.map_eq_some_iff.mp hpart
    simp only [parseValue, map_eq_ok, parseByMonth_written (h.byMonth months hmonths),
      Rule.numbers, hmonths, Option.getD_some, Rule.options, Option.map_some, Option.some.injEq]
    constructor
    · rintro ⟨_, ⟨hall, rfl⟩, hvalue⟩
      exact ⟨hall, hvalue⟩
    · rintro ⟨hall, hvalue⟩
      exact ⟨months, ⟨hall, rfl⟩, hvalue⟩
  | byMonthDay => exact read_list h.byMonthDay hpart parsed
  | byYearDay => exact read_list h.byYearDay hpart parsed
  | byWeekNo => exact read_list h.byWeekNo hpart parsed
  | bySetPos => exact read_list h.bySetPos hpart parsed
  | weekStart =>
    dsimp only [partValue] at hpart
    split_ifs at hpart
    obtain rfl := Option.some.inj hpart
    have hread : parseValue rule.weekStart.rrule .weekStart = .ok (dayValue rule.weekStart) := by
      cases rule.weekStart <;> rfl
    rw [hread]
    simp [Rule.numbers, Rule.options]

/-- The rule a text is read as: an interval of one is left out and filled in again. -/
def Rule.reread (rule : Rule) : Rule :=
  { rule with interval := if rule.interval.value = .finite 1 then .integer 1 else rule.interval }

theorem numbers_of_omitted {rule : Rule} {key : OptionKey} (h : partValue rule key = none) :
    rule.numbers key = [] := by
  cases key <;> simp_all [partValue, Rule.numbers]

/-- A part is left out for an option that is not set, or set to what is filled in. -/
theorem options_of_omitted {rule : Rule} {key : OptionKey} (h : partValue rule key = none)
    (hinterval : key ≠ .interval) (hweekStart : key ≠ .weekStart) :
    rule.options.value key = none := by
  cases key with
  | freq => cases h
  | interval => exact absurd rfl hinterval
  | weekStart => exact absurd rfl hweekStart
  | untilText =>
    have huntil : rule.untilText = none := h
    simp [Rule.options, huntil]
  | _ =>
    simp only [partValue, Option.map_eq_none_iff] at h
    simp [Rule.options, h]

theorem options_of_written {rule : Rule} {key : OptionKey} {text : Text}
    (h : partValue rule key = some text) : ∃ value, rule.options.value key = some value := by
  cases key with
  | freq => exact ⟨_, rfl⟩
  | interval => exact ⟨_, rfl⟩
  | weekStart => exact ⟨_, rfl⟩
  | untilText =>
    have huntil : rule.untilText = some text := h
    exact ⟨.string text, by simp [Rule.options, huntil]⟩
  | _ =>
    simp only [partValue, Option.map_eq_some_iff] at h
    obtain ⟨_, hfield, -⟩ := h
    simp [Rule.options, hfield]

/-- The written options are those of the rule that is read. -/
theorem Valid.reread {rule : Rule} (h : Valid rule) {options : Options}
    (hunknown : options.unknown = [])
    (hwritten : ∀ key, ∀ text ∈ partValue rule key, options.value key = rule.options.value key)
    (homitted : ∀ key, partValue rule key = none → options.value key = none) :
    Normalized options rule.reread := by
  have hsame : ∀ key, key ≠ .interval → key ≠ .weekStart →
      options.value key = rule.options.value key := by
    intro key hinterval hweekStart
    cases hpart : partValue rule key with
    | none => rw [homitted key hpart, options_of_omitted hpart hinterval hweekStart]
    | some text => exact hwritten key text hpart
  have hnormal := h.normalized
  refine ⟨hunknown, ?_, ?_, ?_, ?_, ?_, ?_, ?_, ?_, ?_, ?_, ?_, ?_, ?_, ?_⟩
  · rw [hsame .freq (by decide) (by decide)]
    exact hnormal.freq
  · by_cases hone : rule.interval.value = .finite 1
    · rw [homitted .interval (if_pos hone), Rule.reread, if_pos hone]
      rfl
    · rw [hwritten .interval _ (if_neg hone), Rule.reread, if_neg hone]
      exact hnormal.interval
  · by_cases hmonday : rule.weekStart = .mo
    · rw [homitted .weekStart (if_pos hmonday)]
      exact congrArg Except.ok hmonday.symm
    · rw [hwritten .weekStart _ (if_neg hmonday)]
      exact hnormal.weekStart
  · rw [hsame .count (by decide) (by decide)]
    exact hnormal.count
  · rw [hsame .untilText (by decide) (by decide)]
    exact hnormal.untilText
  · rw [hsame .bySecond (by decide) (by decide)]
    exact hnormal.bySecond
  · rw [hsame .byMinute (by decide) (by decide)]
    exact hnormal.byMinute
  · rw [hsame .byHour (by decide) (by decide)]
    exact hnormal.byHour
  · rw [hsame .byDay (by decide) (by decide)]
    exact hnormal.byDay
  · rw [hsame .byMonth (by decide) (by decide)]
    exact hnormal.byMonth
  · rw [hsame .byMonthDay (by decide) (by decide)]
    exact hnormal.byMonthDay
  · rw [hsame .byYearDay (by decide) (by decide)]
    exact hnormal.byYearDay
  · rw [hsame .byWeekNo (by decide) (by decide)]
    exact hnormal.byWeekNo
  · rw [hsame .bySetPos (by decide) (by decide)]
    exact hnormal.bySetPos

theorem mem_rruleParts {rule : Rule} {part : OptionKey × Text} :
    part ∈ rruleParts rule ↔ partValue rule part.1 = some part.2 := by
  obtain ⟨key, text⟩ := part
  have hkey : key ∈ OptionKey.order := by cases key <;> decide
  simp only [rruleParts, List.mem_filterMap, Option.map_eq_some_iff, Prod.mk.injEq]
  constructor
  · rintro ⟨_, -, _, hpart, rfl, rfl⟩
    exact hpart
  · intro hpart
    exact ⟨key, hkey, text, hpart, rfl, rfl⟩

theorem rruleParts_keys (rule : Rule) : ((rruleParts rule).map Prod.fst).Nodup := by
  have hkeys : (rruleParts rule).map Prod.fst =
      OptionKey.order.filter fun key => (partValue rule key).isSome := by
    rw [rruleParts, List.map_filterMap, ← List.filterMap_eq_filter]
    congr 1
    funext key
    cases hpart : partValue rule key <;> simp [hpart, Option.guard]
  rw [hkeys]
  exact List.Nodup.filter _ (by decide)

/-- When UNTIL holds no semicolon the text falls into its parts, and each is read on its own. -/
theorem Valid.parseRrule_written {rule : Rule} (h : Valid rule)
    (huntil : ∀ text ∈ rule.untilText, ';' ∉ text) (found : Rule) :
    parseRrule (rruleText rule) = .ok found ↔ Writable rule ∧ found = rule.reread := by
  set parts := rruleParts rule with hparts
  set texts := parts.map fun part => partText part.1 part.2 with htexts
  have hnonempty : texts ≠ [] := by
    have hfreq : (OptionKey.freq, rule.freq.rrule) ∈ parts := mem_rruleParts.mpr rfl
    exact List.ne_nil_of_mem (List.mem_map_of_mem hfreq)
  have hfine : ∀ text ∈ texts, text ≠ [] ∧ ';' ∉ text := by
    intro text hmem
    obtain ⟨part, hpart, rfl⟩ := List.mem_map.mp hmem
    obtain ⟨hkey, -, hsemicolon⟩ := part.1.rrule_fine
    refine ⟨List.append_ne_nil_of_left_ne_nil hkey _, ?_⟩
    have hvalue : ';' ∉ part.2 := by
      by_cases hkey : part.1 = .untilText
      · have hpart := mem_rruleParts.mp hpart
        rw [hkey] at hpart
        exact huntil part.2 hpart
      · exact (h.partValue_fine hkey (mem_rruleParts.mp hpart)).2
    simp [partText, hsemicolon, hvalue]
  have hbody : join texts ';' ≠ [] := join_ne_nil hnonempty fun text hmem => (hfine text hmem).1
  have htake : (rruleText rule).take 6 = rrulePrefix := List.take_left' rfl
  have hdrop : (rruleText rule).drop 6 = join texts ';' := List.drop_left' rfl
  have hnew : ∀ part ∈ parts, part.1.rrule ∉ Collected.nothing.seen := fun _ _ => List.not_mem_nil
  unfold parseRrule
  simp only [htake, hdrop, ne_eq, not_true_eq_false, if_false, hbody,
    splitNonempty_join hnonempty hfine]
  have hcollected : ∀ final, texts.foldlM collectPair .nothing = .ok final →
      Writable rule ∧ fromOptions ⟨final.value, []⟩ = .ok rule.reread := by
    intro final hfinal
    obtain ⟨hread, hframe⟩ := collect_parts (rruleParts_keys rule) hnew hfinal
    refine ⟨⟨fun key n hn => ?_, fun text htext => ?_⟩, fromOptions_eq_ok.mpr ?_⟩
    · cases hpart : partValue rule key with
      | none =>
        rw [numbers_of_omitted hpart] at hn
        exact absurd hn List.not_mem_nil
      | some text =>
        obtain ⟨-, parsed, hparsed, -⟩ := hread (key, text) (mem_rruleParts.mpr hpart)
        exact ((h.parseValue_written hpart parsed).mp hparsed).1 n hn
    · exact ⟨(hread (.untilText, text) (mem_rruleParts.mpr htext)).1, huntil text htext⟩
    · refine h.reread rfl (fun key text hpart => ?_) fun key hpart => ?_
      · obtain ⟨-, parsed, hparsed, hvalue⟩ := hread (key, text) (mem_rruleParts.mpr hpart)
        rw [((h.parseValue_written hpart parsed).mp hparsed).2]
        exact hvalue
      · refine hframe key fun hmem => ?_
        obtain ⟨part, hpartmem, rfl⟩ := List.mem_map.mp hmem
        exact absurd (hpart.symm.trans (mem_rruleParts.mp hpartmem)) nofun
  simp only [bind_eq_ok, Except.ok.injEq, exists_eq_left']
  constructor
  · rintro ⟨final, hfinal, hfound⟩
    obtain ⟨hwritable, hreread⟩ := hcollected final hfinal
    exact ⟨hwritable, Except.ok.inj (hfound.symm.trans hreread)⟩
  · rintro ⟨hwritable, rfl⟩
    have hreadable : ∀ part ∈ parts, part.2 ≠ [] ∧ ∃ parsed, parseValue part.2 part.1 =
        .ok parsed := by
      intro part hmem
      have hpart := mem_rruleParts.mp hmem
      refine ⟨?_, ?_⟩
      · by_cases hkey : part.1 = .untilText
        · rw [hkey] at hpart
          exact (hwritable.untilText part.2 hpart).1
        · exact (h.partValue_fine hkey hpart).1
      · obtain ⟨parsed, hvalue⟩ := options_of_written hpart
        exact ⟨parsed, (h.parseValue_written hpart parsed).mpr
          ⟨hwritable.numbers part.1, hvalue⟩⟩
    obtain ⟨final, hfinal⟩ := collect_parts_succeeds (rruleParts_keys rule) hnew hreadable
    exact ⟨final, hfinal, (hcollected final hfinal).2⟩

end Reading

section Until

theorem not_mem_of_mem_splitOn {c : Char} {text part : Text} (h : part ∈ text.splitOn c) :
    c ∉ part := by
  induction text generalizing part with
  | nil =>
    rw [List.splitOn_nil, List.mem_singleton] at h
    rw [h]
    exact List.not_mem_nil
  | cons first rest ih =>
    rw [List.splitOn_cons_eq_if_modifyHead] at h
    split_ifs at h with hfirst
    · rcases List.mem_cons.mp h with rfl | h
      · exact List.not_mem_nil
      · exact ih h
    · obtain ⟨head, tail, hsplit⟩ := List.exists_cons_of_ne_nil (List.splitOn_ne_nil c rest)
      rw [hsplit] at h ih
      rw [List.modifyHead_cons] at h
      rcases List.mem_cons.mp h with rfl | h
      · intro hmem
        rcases List.mem_cons.mp hmem with rfl | hmem
        · exact hfirst (beq_self_eq_true c)
        · exact ih List.mem_cons_self hmem
      · exact ih (List.mem_cons_of_mem head h)

def PlainUntil (collected : Collected) : Prop :=
  ∀ text, collected.value .untilText = some (.string text) → ';' ∉ text

theorem collectPair_plainUntil {collected next : Collected} {pair : Text} (hpair : ';' ∉ pair)
    (h : collectPair collected pair = .ok next) (hplain : PlainUntil collected) :
    PlainUntil next := by
  unfold collectPair at h
  split_ifs at h
  dsimp only at h
  split_ifs at h
  split at h
  · cases h
  · next key hkey =>
    simp only [bind_eq_ok, pure_eq_ok] at h
    obtain ⟨parsed, hparsed, rfl⟩ := h
    intro text htext
    by_cases heq : key = .untilText
    · subst heq
      rw [parseValue, pure_eq_ok] at hparsed
      rw [← hparsed] at htext
      dsimp only at htext
      rw [Function.update_self] at htext
      obtain rfl := Value.string.inj (Option.some.inj htext)
      exact fun hmem => hpair (List.dropWhile_subset _ (List.mem_of_mem_tail hmem))
    · dsimp only at htext
      rw [Function.update_of_ne (Ne.symm heq)] at htext
      exact hplain text htext

/-- No UNTIL that is read holds a semicolon. -/
theorem parseRrule_until {text : Text} {found : Rule} (h : parseRrule text = .ok found) :
    ∀ stop ∈ found.untilText, ';' ∉ stop := by
  unfold parseRrule at h
  split_ifs at h
  dsimp only at h
  split_ifs at h
  simp only [bind_eq_ok] at h
  obtain ⟨pairs, hpairs, collected, hcollected, hfound⟩ := h
  have hpieces : ∀ pair ∈ pairs, ';' ∉ pair := by
    unfold splitNonempty at hpairs
    dsimp only at hpairs
    split_ifs at hpairs
    obtain rfl := pure_eq_ok.mp hpairs
    exact fun pair hmem => not_mem_of_mem_splitOn hmem
  have hplain : PlainUntil collected := by
    have hrun : ∀ (pairs : List Text) (start : Collected), (∀ pair ∈ pairs, ';' ∉ pair) →
        PlainUntil start → pairs.foldlM collectPair start = .ok collected →
        PlainUntil collected := by
      intro pairs
      induction pairs with
      | nil =>
        intro start _ hstart heq
        obtain rfl := pure_eq_ok.mp heq
        exact hstart
      | cons pair rest ih =>
        intro start hall hstart heq
        rw [List.foldlM_cons, bind_eq_ok] at heq
        obtain ⟨next, hstep, hrest⟩ := heq
        rw [List.forall_mem_cons] at hall
        exact ih next hall.2 (collectPair_plainUntil hall.1 hstep hstart) hrest
    refine hrun pairs .nothing hpieces ?_ hcollected
    intro value hvalue
    cases hvalue
  have huntil := (fromOptions_eq_ok.mp hfound).untilText
  intro stop hstop
  unfold normalizeUntil at huntil
  split at huntil
  · rw [← pure_eq_ok.mp huntil] at hstop
    cases hstop
  · next text hvalue =>
    rw [← pure_eq_ok.mp huntil] at hstop
    obtain rfl := Option.some.inj hstop
    exact hplain text hvalue
  · cases huntil

end Until

section RoundTrip

/-- Numbers compare by value, whichever kind they are. -/
def Number.plain (n : Number) : Number := .float n.value

def ByDay.plain : ByDay → ByDay
  | .every weekday => .every weekday
  | .nth weekday ordinal => .nth weekday (Number.plain ordinal)

def Rule.plain (rule : Rule) : Rule where
  freq := rule.freq
  interval := Number.plain rule.interval
  weekStart := rule.weekStart
  count := rule.count.map Number.plain
  untilText := rule.untilText
  bySecond := rule.bySecond.map (·.map Number.plain)
  byMinute := rule.byMinute.map (·.map Number.plain)
  byHour := rule.byHour.map (·.map Number.plain)
  byDay := rule.byDay.map (·.map ByDay.plain)
  byMonth := rule.byMonth.map (·.map Number.plain)
  byMonthDay := rule.byMonthDay.map (·.map Number.plain)
  byYearDay := rule.byYearDay.map (·.map Number.plain)
  byWeekNo := rule.byWeekNo.map (·.map Number.plain)
  bySetPos := rule.bySetPos.map (·.map Number.plain)

def Rule.Same (rule other : Rule) : Prop := rule.plain = other.plain

def RoundTrips (rule : Rule) : Prop :=
  ∃ text found, toRrule rule.options = .ok text ∧ parseRrule text = .ok found ∧ found.Same rule

theorem Rule.reread_same (rule : Rule) : rule.reread.Same rule := by
  unfold Rule.Same Rule.plain Rule.reread
  congr 1
  dsimp only
  split_ifs with hone
  · rw [Number.plain, Number.plain, hone]
    rfl
  · rfl

theorem Valid.roundTrips_iff {rule : Rule} (h : Valid rule) : RoundTrips rule ↔ Writable rule := by
  constructor
  · rintro ⟨text, found, htext, hfound, hsame⟩
    rw [h.toRrule_eq, Except.ok.injEq] at htext
    subst htext
    have hplains : found.plain = rule.plain := hsame
    have huntil : found.plain.untilText = rule.plain.untilText := by rw [hplains]
    change found.untilText = rule.untilText at huntil
    have hplain := parseRrule_until hfound
    rw [huntil] at hplain
    exact ((h.parseRrule_written hplain found).mp hfound).1
  · intro hwritable
    refine ⟨rruleText rule, rule.reread, h.toRrule_eq, ?_, rule.reread_same⟩
    exact (h.parseRrule_written (fun text hmem => (hwritable.untilText text hmem).2) _).mpr
      ⟨hwritable, rfl⟩

/-- An accepted rule is read back from its text when its numbers are integers and its UNTIL fits a
part, and no two such rules share a text. -/
theorem round_trips_iff_writable {options : Options} {rule : Rule}
    (h : fromOptions options = .ok rule) :
    (RoundTrips rule ↔ Writable rule) ∧
      ∀ others other, fromOptions others = .ok other → Writable rule → Writable other →
        toRrule rule.options = toRrule other.options → rule.Same other := by
  have hvalid := (fromOptions_eq_ok.mp h).valid
  refine ⟨hvalid.roundTrips_iff, fun others other hother hwritable hwritable' htext => ?_⟩
  have hvalid' := (fromOptions_eq_ok.mp hother).valid
  obtain ⟨text, found, hrule, hfound, hsame⟩ := hvalid.roundTrips_iff.mpr hwritable
  obtain ⟨text', found', hrule', hfound', hsame'⟩ := hvalid'.roundTrips_iff.mpr hwritable'
  obtain rfl := Except.ok.inj (hrule.symm.trans (htext.trans hrule'))
  obtain rfl := Except.ok.inj (hfound.symm.trans hfound')
  exact hsame.symm.trans hsame'

/-- Every other Monday until the new year. -/
def everyOtherMonday : Rule where
  freq := .weekly
  interval := .integer 2
  weekStart := .mo
  count := none
  untilText := some "20260101T000000".toList
  bySecond := none
  byMinute := none
  byHour := none
  byDay := some [.every .mo]
  byMonth := none
  byMonthDay := none
  byYearDay := none
  byWeekNo := none
  bySetPos := none

theorem round_trips_iff_writable_everyOtherMonday :
    RoundTrips everyOtherMonday ∧ ∀ others other, fromOptions others = .ok other →
      Writable other → toRrule everyOtherMonday.options = toRrule other.options →
      everyOtherMonday.Same other := by
  have haccepted : fromOptions everyOtherMonday.options = .ok everyOtherMonday := by
    decide +kernel
  obtain ⟨hround, hdistinct⟩ := round_trips_iff_writable haccepted
  have hwritable : Writable everyOtherMonday := by
    refine ⟨fun key n hn => ?_, fun text htext => ?_⟩
    · cases key with
      | interval =>
        have hinterval : everyOtherMonday.numbers .interval = [.integer 2] := by decide +kernel
        rw [hinterval, List.mem_singleton] at hn
        exact ⟨2, hn⟩
      | _ => simp [Rule.numbers, everyOtherMonday, ByDay.ordinals] at hn
    · obtain rfl := Option.some.inj htext
      decide
  exact ⟨hround.mpr hwritable, fun others other hother hother' htext =>
    hdistinct others other hother hwritable hother' htext⟩

/-- The same rule with the interval JSON gives as a double. -/
def everyOtherMondayDouble : Rule :=
  { everyOtherMonday with interval := .float (.finite 2) }

theorem not_round_trips_double :
    fromOptions everyOtherMondayDouble.options = .ok everyOtherMondayDouble ∧
    toRrule everyOtherMondayDouble.options =
      .ok "RRULE:FREQ=WEEKLY;INTERVAL=2.0;UNTIL=20260101T000000;BYDAY=MO".toList ∧
    parseRrule "RRULE:FREQ=WEEKLY;INTERVAL=2.0;UNTIL=20260101T000000;BYDAY=MO".toList =
      .error "invalid RRULE INTERVAL" ∧
    ¬ ∀ options rule, fromOptions options = .ok rule → RoundTrips rule := by
  have haccepted : fromOptions everyOtherMondayDouble.options = .ok everyOtherMondayDouble := by
    decide +kernel
  have htext : toRrule everyOtherMondayDouble.options =
      .ok "RRULE:FREQ=WEEKLY;INTERVAL=2.0;UNTIL=20260101T000000;BYDAY=MO".toList := by
    decide +kernel
  have hrefused : parseRrule "RRULE:FREQ=WEEKLY;INTERVAL=2.0;UNTIL=20260101T000000;BYDAY=MO".toList =
      .error "invalid RRULE INTERVAL" := by
    decide +kernel
  refine ⟨haccepted, htext, hrefused, fun hall => ?_⟩
  obtain ⟨text, found, hwritten, hfound, -⟩ := hall _ _ haccepted
  obtain rfl := Except.ok.inj (htext.symm.trans hwritten)
  exact absurd (hrefused.symm.trans hfound) nofun

end RoundTrip

end Space2.Recurrence
