import Space2.Temporal.DayTime

/-!
# Reading date-times back

The text of a date-time gives the fraction of a second without the zeros at its end. Reading the
text gives the date-time again.
-/
namespace Space2.Temporal
open Base

section Numbers
variable {n : Int}

theorem isDigits_padded (width : Nat) (n : Int) :
    isDigits (padded width n) = true := by
  have hdigits := isDigits_digits n.toNat
  unfold isDigits at hdigits ⊢
  obtain ⟨hsome, hall⟩ := Bool.and_eq_true_iff.mp hdigits
  have hne : padded width n ≠ [] := by
    intro hnil
    rw [padded, List.append_eq_nil_iff] at hnil
    simp [hnil.2] at hsome
  refine Bool.and_eq_true_iff.mpr ⟨by simpa using hne, List.all_eq_true.mpr fun c hc => ?_⟩
  rcases List.mem_append.mp hc with hzero | hdigit
  · rw [List.eq_of_mem_replicate hzero]
    rfl
  · exact List.all_eq_true.mp hall c hdigit

theorem splitDateTime_padded {year month day hour minute second : Int} (hyear : year < 10 ^ 4)
    (hmonth : month < 10 ^ 2) (hday : day < 10 ^ 2) (hhour : hour < 10 ^ 2)
    (hminute : minute < 10 ^ 2) (hsecond : second < 10 ^ 2) (rest : Text) :
    splitDateTime (padded 4 year ++ '-' :: (padded 2 month ++ '-' :: (padded 2 day ++ 'T' ::
      (padded 2 hour ++ ':' :: (padded 2 minute ++ ':' :: (padded 2 second ++ rest)))))) =
      some ([padded 4 year, padded 2 month, padded 2 day, padded 2 hour, padded 2 minute,
        padded 2 second], rest) := by
  have htwo := fun n (hn : n < 10 ^ 2) => List.length_eq_two.mp (padded_length (by decide) hn)
  obtain ⟨y₁, y₂, y₃, y₄, hy⟩ : ∃ a b c d, padded 4 year = [a, b, c, d] := by
    have hlength : (padded 4 year).length = 4 := padded_length (by decide) hyear
    generalize padded 4 year = text at hlength
    match text, hlength with
    | [a, b, c, d], _ => exact ⟨a, b, c, d, rfl⟩
  obtain ⟨o₁, o₂, ho⟩ := htwo month hmonth
  obtain ⟨d₁, d₂, hd⟩ := htwo day hday
  obtain ⟨h₁, h₂, hh⟩ := htwo hour hhour
  obtain ⟨m₁, m₂, hm⟩ := htwo minute hminute
  obtain ⟨s₁, s₂, hs⟩ := htwo second hsecond
  have hall : [padded 4 year, padded 2 month, padded 2 day, padded 2 hour, padded 2 minute,
      padded 2 second].all isDigits = true := by
    simp only [List.all_cons, List.all_nil, Bool.and_true, Bool.and_eq_true]
    exact ⟨isDigits_padded 4 _, isDigits_padded 2 _, isDigits_padded 2 _, isDigits_padded 2 _,
      isDigits_padded 2 _, isDigits_padded 2 _⟩
  rw [hy, ho, hd, hh, hm, hs] at hall ⊢
  exact if_pos hall

end Numbers

section Fractions
variable {n : Int} {rest : Text}

/-- The text goes on with neither a digit nor a point. -/
def Ends (rest : Text) : Prop := ∀ c, rest.head? = some c → c.isDigit = false ∧ c ≠ '.'

theorem takeWhile_ends (h : Ends rest) : rest.takeWhile Char.isDigit = [] := by
  cases rest with
  | nil => rfl
  | cons c rest => exact List.takeWhile_cons_of_neg (by simp [(h c rfl).1])

/-- The digits of a fraction that are printed. -/
def trimmedFraction (nanosecond : Int) : Text :=
  ((padded 9 nanosecond).reverse.dropWhile (· == '0')).reverse

theorem isDigit_trimmedFraction : ∀ c ∈ trimmedFraction n, c.isDigit = true := by
  intro c hc
  refine isDigit_of_isDigits (isDigits_padded 9 n) ?_
  rw [← trimmed_append (padded 9 n)]
  exact List.mem_append_left _ hc

theorem trimmedFraction_append (h : n < 10 ^ 9) :
    trimmedFraction n ++ List.replicate (9 - (trimmedFraction n).length) '0' = padded 9 n := by
  have hall := trimmed_append (padded 9 n)
  rw [padded_length (by decide) h] at hall
  exact hall

theorem trimmedFraction_length (h : 0 < n) (hsmall : n < 10 ^ 9) :
    1 ≤ (trimmedFraction n).length ∧ (trimmedFraction n).length ≤ 9 := by
  have hall := trimmedFraction_append hsmall
  have hlength := padded_length (by decide) hsmall
  constructor
  · by_contra hnone
    have hnil : trimmedFraction n = [] := List.length_eq_zero_iff.mp (by omega)
    rw [hnil, List.nil_append] at hall
    have hvalue := ofDigitChars_padded 9 h.le
    rw [← hall, Nat.ofDigitChars_replicate_zero] at hvalue
    omega
  · rw [← hall, List.length_append] at hlength
    omega

theorem splitFraction_formatFraction (h : 0 ≤ n ∧ n < nanosPerSecond) (hrest : Ends rest) :
    splitFraction (formatFraction n ++ rest) = some (n, rest) := by
  by_cases hzero : n = 0
  · have hnone : formatFraction n = [] := if_pos hzero
    rw [hnone, List.nil_append, hzero]
    unfold splitFraction
    split
    · exact absurd rfl (hrest '.' rfl).2
    · rfl
  · have hsmall : n < 10 ^ 9 := h.2
    obtain ⟨hsome, hnine⟩ := trimmedFraction_length (by omega) hsmall
    have htext : formatFraction n ++ rest = '.' :: (trimmedFraction n ++ rest) := by
      rw [formatFraction, if_neg hzero]
      rfl
    have hdigits : (trimmedFraction n ++ rest).takeWhile Char.isDigit = trimmedFraction n := by
      rw [List.takeWhile_append_of_pos isDigit_trimmedFraction, takeWhile_ends hrest,
        List.append_nil]
    rw [htext]
    change (if ((trimmedFraction n ++ rest).takeWhile Char.isDigit).length = 0 ∨ _ then _ else _) = _
    rw [hdigits, if_neg (by omega), List.drop_left, trimmedFraction_append hsmall,
      ofDigitChars_padded 9 h.1]

end Fractions

section DateTimes
variable {fields : CivilFields} {rest : Text}

/-- A text is read field by field. -/
theorem parseCivil_formatCivil (h : fields.Fits) (hrest : Ends rest) (message : String) :
    parseCivil (formatCivil fields ++ rest) message = .ok (fields, rest) := by
  have hsplit := splitDateTime_padded h.year.2 h.month.2 h.day.2 h.hour.2 h.minute.2 h.second.2
    (formatFraction fields.nanosecond ++ rest)
  have htext : formatCivil fields ++ rest =
      padded 4 fields.year ++ '-' :: (padded 2 fields.month ++ '-' :: (padded 2 fields.day ++ 'T' ::
        (padded 2 fields.hour ++ ':' :: (padded 2 fields.minute ++ ':' ::
          (padded 2 fields.second ++ (formatFraction fields.nanosecond ++ rest)))))) := by
    simp [formatCivil]
  have hfields : parsedFields [padded 4 fields.year, padded 2 fields.month, padded 2 fields.day,
      padded 2 fields.hour, padded 2 fields.minute, padded 2 fields.second] fields.nanosecond =
        fields := by
    unfold parsedFields
    dsimp only
    rw [ofDigitChars_padded 4 h.year.1, ofDigitChars_padded 2 h.month.1,
      ofDigitChars_padded 2 h.day.1, ofDigitChars_padded 2 h.hour.1,
      ofDigitChars_padded 2 h.minute.1, ofDigitChars_padded 2 h.second.1]
  unfold parseCivil
  rw [htext, hsplit]
  dsimp only
  rw [splitFraction_formatFraction h.nanosecond hrest]
  dsimp only
  rw [hfields]
  rfl

/-- The day and the time of the fields of a date-time. -/
theorem nanosFromFields_fields (p : PlainDateTime) :
    nanosFromFields p.fields = .ok (p.dayNumber, p.timeOfDay) := by
  obtain ⟨⟨day, time⟩, hnanos, hbuilt⟩ := bind_eq_ok.mp p.fromFields_fields
  have htime : time = p.timeOfDay := by
    unfold nanosFromFields at hnanos
    simp only [bind_eq_ok, pure_eq_ok, Prod.mk.injEq] at hnanos
    obtain ⟨-, -, -, -, -, rfl⟩ := hnanos
    exact p.timeOfDay_fields
  subst htime
  obtain ⟨hday, -⟩ := (PlainDateTime.fromDayTime_eq_ok p.timeOfDay_bounds).mp hbuilt
  rw [hnanos, hday]

theorem PlainDateTime.parse_toText (p : PlainDateTime) : PlainDateTime.parse p.toText = .ok p := by
  have hread := @parseCivil_formatCivil _ [] (fields_fit p.inRange)
    (fun c hc => nomatch hc) "invalid temporal plain date-time"
  have hsecond := p.time_fits.second.2
  rw [List.append_nil] at hread
  unfold PlainDateTime.parse toText
  refine bind_eq_ok.mpr ⟨_, hread, ?_⟩
  refine bind_eq_ok.mpr ⟨(), ensure_eq_ok.mpr rfl, ?_⟩
  refine bind_eq_ok.mpr ⟨(), ensure_eq_ok.mpr fun h => ?_, ?_⟩
  · exact absurd (h ▸ hsecond) (by decide)
  exact p.fromFields_fields

theorem Instant.parse_toText (i : Instant) : Instant.parse i.toText = .ok i := by
  have hread := @parseCivil_formatCivil _ ['Z'] (fields_fit i.inRange)
    (fun c hc => by cases hc; decide) "invalid temporal instant"
  have hnanos := nanosFromFields_fields ⟨i.nanoseconds, i.inRange⟩
  have hsecond := (⟨i.nanoseconds, i.inRange⟩ : PlainDateTime).time_fits.second.2
  have hsum := PlainDateTime.nanoseconds_eq ⟨i.nanoseconds, i.inRange⟩
  unfold Instant.parse toText
  refine bind_eq_ok.mpr ⟨_, hread, ?_⟩
  refine bind_eq_ok.mpr ⟨(), ensure_eq_ok.mpr ?_, ?_⟩
  · have : (fieldsFromLocal i.nanoseconds).second ≤ 59 := hsecond
    omega
  refine bind_eq_ok.mpr ⟨_, hnanos, ?_⟩
  refine bind_eq_ok.mpr ⟨(), rfl, ?_⟩
  refine bind_eq_ok.mpr ⟨⟨i.nanoseconds, i.inRange⟩, ?_, rfl⟩
  have hutc : (1 : Int) * ((0 * 60 + 0) * 60) * nanosPerSecond = 0 := rfl
  rw [hutc, sub_zero, ← hsum, checked, dif_pos i.inRange]
  rfl

end DateTimes

end Space2.Temporal
