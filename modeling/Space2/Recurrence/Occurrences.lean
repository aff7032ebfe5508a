import Space2.Recurrence.Refusals

/-!
# The occurrences of a rule

A rule lists the first members of its buckets between its start and its UNTIL, as many as COUNT and
the limit allow, or is refused.
-/
namespace Space2.Recurrence
open Base Temporal

variable {rule input : Rule} {dtstart : PlainDateTime} {bounds : Bounds}
  {final : List PlainDateTime} {options : Options} {limit : Option Nat}

theorem Normalized.intervalInteger_pos (h : Normalized options rule) :
    0 < rule.intervalInteger := by
  have hinterval := h.interval
  unfold Rule.intervalInteger toInteger
  cases hvalue : options.value .interval with
  | none =>
    rw [hvalue] at hinterval
    rw [← pure_eq_ok.mp hinterval]
    decide
  | some value =>
    rw [hvalue] at hinterval
    change validatePositiveInteger "interval" value = .ok rule.interval at hinterval
    unfold validatePositiveInteger at hinterval
    split at hinterval
    · next n =>
      split_ifs at hinterval with hpasses
      obtain rfl := pure_eq_ok.mp hinterval
      rw [Bool.and_eq_true] at hpasses
      obtain ⟨hintegral, hpositive⟩ := hpasses
      unfold Number.isIntegral at hintegral
      unfold Number.isPositive at hpositive
      cases hn : rule.interval.value with
      | finite q =>
        rw [hn] at hintegral hpositive
        have hq : q = (⌊q⌋ : ℚ) := by simpa using hintegral
        have hpos : 0 < q := by simpa using hpositive
        rw [hq] at hpos
        exact_mod_cast hpos
      | infinite negative =>
        rw [hn] at hpositive
        cases negative with
        | true => cases hpositive
        | false =>
          show (0 : Int) < 2 ^ 1024
          positivity
      | nan =>
        rw [hn] at hintegral
        cases hintegral
    · cases hinterval

/-- A yearly rule of the selector engine says which month or which days are meant. -/
def YearSpecified (rule : Rule) : Prop :=
  needsCandidateSelectorEngine rule = true → rule.byMonth = none → defaultsMonth rule = false

theorem expand_firsts (hinterval : 0 < rule.intervalInteger) (hyear : YearSpecified rule)
    (huntil : UntilReached rule dtstart bounds) (h : expand rule dtstart bounds = .ok final) :
    Firsts bounds.limit (selectedSet rule dtstart bounds) final := by
  unfold expand at h
  split_ifs at h with hduration hengine
  · exact expandSubDaily_firsts hinterval h
  · exact expandCandidates_firsts hinterval (hyear hengine) huntil h
  · exact expandPlain_firsts hinterval (plain_iff.mp (Bool.eq_false_of_not_eq_true hengine)) h

theorem raises_expand (hinterval : 0 < rule.intervalInteger) (hyear : YearSpecified rule) :
    Raises (Refused rule dtstart) (expand rule dtstart bounds) := by
  unfold expand
  split_ifs with hduration hengine
  · exact raises_expandSubDaily hinterval hduration
  · exact raises_expandCandidates hinterval (hyear hengine) (Bool.eq_false_of_not_eq_true hduration)
  · exact raises_expandPlain hinterval (plain_iff.mp (Bool.eq_false_of_not_eq_true hengine))
      (Bool.eq_false_of_not_eq_true hduration)

theorem occurrences_eq (hrule : fromOptions input.options = .ok rule)
    (hbounds : occurrenceBounds rule limit = .ok bounds) :
    occurrences input dtstart limit = expand rule dtstart bounds := by
  unfold occurrences
  rw [hrule]
  show (occurrenceBounds rule limit >>= fun bounds => expand rule dtstart bounds) = _
  rw [hbounds]
  rfl

theorem numericOccurrenceLimit_eq_ok {least : Option Nat}
    (h : numericOccurrenceLimit rule limit = .ok least) : least = leastLimit rule limit := by
  unfold numericOccurrenceLimit at h
  cases limit with
  | none => exact (pure_eq_ok.mp h).symm
  | some most =>
    obtain ⟨-, -, h⟩ := bind_eq_ok.mp h
    exact (pure_eq_ok.mp h).symm

/-- A smaller limit changes nothing but how many are listed. -/
theorem occurrenceBounds_fewer {fewer : Nat} {bounds' : Bounds}
    (hbounds : occurrenceBounds rule limit = .ok bounds)
    (hbounds' : occurrenceBounds rule (some fewer) = .ok bounds')
    (hfewer : ∀ most, limit = some most → fewer ≤ most) :
    bounds'.untilDate = bounds.untilDate ∧
      ∃ n, bounds'.limit = some n ∧ (∀ m, bounds.limit = some m → n ≤ m) ∧
        (n = fewer ∨ n ≤ fewer ∧ bounds.limit = some n) := by
  unfold occurrenceBounds at hbounds hbounds'
  simp only [bind_eq_ok, pure_eq_ok, ensure_eq_ok] at hbounds hbounds'
  obtain ⟨least, hleast, untilDate, huntil, -, -, rfl⟩ := hbounds
  obtain ⟨least', hleast', untilDate', huntil', -, -, rfl⟩ := hbounds'
  refine ⟨Except.ok.inj (huntil'.symm.trans huntil), ?_⟩
  dsimp only
  rw [numericOccurrenceLimit_eq_ok hleast, numericOccurrenceLimit_eq_ok hleast']
  unfold leastLimit
  cases rule.count with
  | none =>
    refine ⟨fewer, rfl, fun m hm => ?_, .inl rfl⟩
    cases limit with
    | none => cases hm
    | some most =>
      obtain rfl := Option.some.inj hm
      exact hfewer _ rfl
  | some count =>
    refine ⟨_, rfl, fun m hm => ?_, ?_⟩
    · cases limit with
      | none =>
        obtain rfl := Option.some.inj hm
        exact Nat.min_le_left _ _
      | some most =>
        obtain rfl := Option.some.inj hm
        have := hfewer most rfl
        omega
    · rcases Nat.le_total fewer (toInteger count).toNat with hle | hle
      · exact .inl (Nat.min_eq_right hle)
      · refine .inr ⟨by omega, ?_⟩
        cases limit with
        | none => exact congrArg some (Nat.min_eq_left hle).symm
        | some most =>
          have := hfewer most rfl
          exact congrArg some (by omega)

section Instances

/-- One period after another, with no selectors. -/
def each (freq : Freq) : Rule where
  freq := freq
  interval := .integer 1
  weekStart := .mo
  count := none
  untilText := none
  bySecond := none
  byMinute := none
  byHour := none
  byDay := none
  byMonth := none
  byMonthDay := none
  byYearDay := none
  byWeekNo := none
  bySetPos := none

/-- 2026-05-20T09:00:00, a Wednesday -/
def may20 : PlainDateTime := ⟨1779267600000000000, by decide⟩

def fridays : Rule := { each .weekly with byDay := some [.every .fr] }

end Instances

end Space2.Recurrence
