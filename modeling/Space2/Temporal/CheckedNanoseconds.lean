import Space2.Base.SignedArithmetic
import Space2.Temporal.DayTime

/-!
# Checked counts of nanoseconds

Counts of nanoseconds are added, multiplied and put together from days or seconds on signed
integers of 64 bits, with a test before each step that could leave the range.
-/
namespace Space2.Temporal
open Base Signed

namespace Checked

def maxInt64 : Int64 := 9223372036854775807
def minInt64 : Int64 := -9223372036854775808

section Operations

/-- `left` beyond the bound that `right` leaves. -/
def addOverflows (left right : Int64) : Machine Bool :=
  if 0 < right then do
    let limit ← sub maxInt64 right
    pure (decide (limit < left))
  else if right < 0 then do
    let limit ← sub minInt64 right
    pure (decide (left < limit))
  else pure false

def checkedAdd (left right : Int64) : Machine Int64 :=
  guarded (addOverflows left right) overflow (add left right)

def subtractOverflows (left right : Int64) : Machine Bool :=
  if right < 0 then do
    let limit ← add maxInt64 right
    pure (decide (limit < left))
  else if 0 < right then do
    let limit ← add minInt64 right
    pure (decide (left < limit))
  else pure false

def checkedSubtract (left right : Int64) : Machine Int64 :=
  guarded (subtractOverflows left right) overflow (sub left right)

def multiplyOverflows (value factor : Int64) : Machine Bool :=
  if 0 < value then
    if 0 < factor then do
      let limit ← div maxInt64 factor
      pure (decide (limit < value))
    else if factor < 0 then do
      let limit ← div minInt64 value
      pure (decide (factor < limit))
    else pure false
  else if value < 0 then
    if 0 < factor then do
      let limit ← div minInt64 factor
      pure (decide (value < limit))
    else if factor < 0 then do
      let limit ← div maxInt64 value
      pure (decide (factor < limit))
    else pure false
  else pure false

def checkedMultiply (value factor : Int64) : Machine Int64 :=
  guarded (multiplyOverflows value factor) overflow (mul value factor)

variable {left right value factor limit : Int64}

theorem pos_iff (a : Int64) : 0 < a ↔ 0 < a.toInt := Int64.lt_iff_toInt_lt

theorem neg_iff (a : Int64) : a < 0 ↔ a.toInt < 0 := Int64.lt_iff_toInt_lt

theorem toInt_max : maxInt64.toInt = 2 ^ 63 - 1 := by decide

theorem toInt_min : minInt64.toInt = -2 ^ 63 := by decide

/-- A comparison with a bound, once the bound is known. -/
theorem bound_eq {bound : Machine Int64} {n : Int} (hbound : bound = .ok limit)
    {P : Int64 → Prop} [DecidablePred P] (h : P limit ↔ ¬ Fits n) :
    (do let found ← bound
        pure (decide (P found)) : Machine Bool) = .ok (decide (¬ Fits n)) := by
  rw [hbound]
  change Except.ok (decide (P limit)) = _
  simp only [h]

theorem addOverflows_eq (left right : Int64) :
    addOverflows left right = .ok (decide (¬ Fits (left.toInt + right.toInt))) := by
  obtain ⟨hleft, hleft'⟩ := fits_toInt left
  obtain ⟨hright, hright'⟩ := fits_toInt right
  unfold addOverflows
  simp only [pos_iff, neg_iff]
  by_cases hpos : 0 < right.toInt
  · have hfits : Fits (maxInt64.toInt - right.toInt) := by
      rw [toInt_max]
      exact ⟨by omega, by omega⟩
    rw [if_pos hpos]
    refine bound_eq (exact_of_fits hfits) ?_
    rw [Int64.lt_iff_toInt_lt, toInt_ofInt hfits, toInt_max, Fits]
    omega
  · rw [if_neg hpos]
    by_cases hneg : right.toInt < 0
    · have hfits : Fits (minInt64.toInt - right.toInt) := by
        rw [toInt_min]
        exact ⟨by omega, by omega⟩
      rw [if_pos hneg]
      refine bound_eq (exact_of_fits hfits) ?_
      rw [Int64.lt_iff_toInt_lt, toInt_ofInt hfits, toInt_min, Fits]
      omega
    · rw [if_neg hneg, decide_eq_false]
      · rfl
      · rw [not_not, Fits]
        omega

/-- `checked_add` -/
theorem checkedAdd_eq (left right : Int64) :
    checkedAdd left right = orThrow (left.toInt + right.toInt) overflow :=
  guarded_eq (addOverflows_eq left right)

theorem subtractOverflows_eq (left right : Int64) :
    subtractOverflows left right = .ok (decide (¬ Fits (left.toInt - right.toInt))) := by
  obtain ⟨hleft, hleft'⟩ := fits_toInt left
  obtain ⟨hright, hright'⟩ := fits_toInt right
  unfold subtractOverflows
  simp only [pos_iff, neg_iff]
  by_cases hneg : right.toInt < 0
  · have hfits : Fits (maxInt64.toInt + right.toInt) := by
      rw [toInt_max]
      exact ⟨by omega, by omega⟩
    rw [if_pos hneg]
    refine bound_eq (exact_of_fits hfits) ?_
    rw [Int64.lt_iff_toInt_lt, toInt_ofInt hfits, toInt_max, Fits]
    omega
  · rw [if_neg hneg]
    by_cases hpos : 0 < right.toInt
    · have hfits : Fits (minInt64.toInt + right.toInt) := by
        rw [toInt_min]
        exact ⟨by omega, by omega⟩
      rw [if_pos hpos]
      refine bound_eq (exact_of_fits hfits) ?_
      rw [Int64.lt_iff_toInt_lt, toInt_ofInt hfits, toInt_min, Fits]
      omega
    · rw [if_neg hpos, decide_eq_false]
      · rfl
      · rw [not_not, Fits]
        omega

/-- `checked_subtract` -/
theorem checkedSubtract_eq (left right : Int64) :
    checkedSubtract left right = orThrow (left.toInt - right.toInt) overflow :=
  guarded_eq (subtractOverflows_eq left right)

/-- A bound above, divided by a positive number. -/
theorem tdiv_lt_iff {bound a b : Int} (hbound : 0 ≤ bound) (hb : 0 < b) :
    bound.tdiv b < a ↔ bound < a * b := by
  rw [Int.tdiv_eq_ediv_of_nonneg hbound, Int.ediv_lt_iff_lt_mul hb]

/-- A bound below, divided by a positive number. -/
theorem lt_neg_tdiv_iff {bound a b : Int} (hbound : 0 ≤ bound) (hb : 0 < b) :
    a < (-bound).tdiv b ↔ a * b < -bound := by
  have hopposite := tdiv_lt_iff (a := -a) hbound hb
  rw [Int.neg_tdiv, Int.neg_mul] at *
  omega

theorem fits_tdiv {a b : Int} (ha : Fits a) (hsmall : -2 ^ 63 < a ∨ 0 < b) : Fits (a.tdiv b) := by
  have hbound := Int.natAbs_tdiv_le_natAbs a b
  obtain ⟨hlow, hhigh⟩ := ha
  rcases hsmall with hsmall | hpos
  · exact ⟨by omega, by omega⟩
  · by_cases hsign : 0 ≤ a
    · exact ⟨by omega, by omega⟩
    · have hopposite := Int.tdiv_nonneg (a := -a) (by omega) hpos.le
      rw [Int.neg_tdiv] at hopposite
      exact ⟨by omega, by omega⟩

/-- A quotient as a bound. -/
theorem div_bound {a b : Int64} (hb : b.toInt ≠ 0) (hsmall : -2 ^ 63 < a.toInt ∨ 0 < b.toInt) :
    ∃ limit, div a b = .ok limit ∧ limit.toInt = a.toInt.tdiv b.toInt := by
  have hnonzero : b ≠ 0 := by
    rintro rfl
    exact hb rfl
  have hfits := fits_tdiv (fits_toInt a) hsmall
  exact ⟨_, (if_neg hnonzero).trans (exact_of_fits hfits), toInt_ofInt hfits⟩

theorem multiplyOverflows_eq (value factor : Int64) :
    multiplyOverflows value factor = .ok (decide (¬ Fits (value.toInt * factor.toInt))) := by
  unfold multiplyOverflows
  simp only [pos_iff, neg_iff]
  have hmax : (0 : Int) ≤ 2 ^ 63 - 1 := by decide
  have hmin : (0 : Int) ≤ 2 ^ 63 := by decide
  rcases lt_trichotomy value.toInt 0 with hvalue | hvalue | hvalue
  · rw [if_neg hvalue.le.not_gt, if_pos hvalue]
    rcases lt_trichotomy factor.toInt 0 with hfactor | hfactor | hfactor
    · rw [if_neg hfactor.le.not_gt, if_pos hfactor]
      have hproduct : 0 < value.toInt * factor.toInt := mul_pos_of_neg_of_neg hvalue hfactor
      obtain ⟨limit, hlimit, hquotient⟩ := div_bound (a := maxInt64) hvalue.ne (.inl (by decide))
      refine bound_eq hlimit ?_
      have hbound := tdiv_lt_iff (a := -factor.toInt) hmax (Int.neg_pos.mpr hvalue)
      rw [Int.tdiv_neg, neg_mul_neg, mul_comm] at hbound
      rw [Int64.lt_iff_toInt_lt, hquotient, toInt_max, Fits]
      omega
    · rw [if_neg hfactor.not_gt, if_neg hfactor.not_lt, hfactor, mul_zero]
      rfl
    · rw [if_pos hfactor]
      have hproduct : value.toInt * factor.toInt < 0 := mul_neg_of_neg_of_pos hvalue hfactor
      obtain ⟨limit, hlimit, hquotient⟩ := div_bound (a := minInt64) hfactor.ne' (.inr hfactor)
      refine bound_eq hlimit ?_
      have hbound := lt_neg_tdiv_iff (a := value.toInt) hmin hfactor
      rw [Int64.lt_iff_toInt_lt, hquotient, toInt_min, Fits]
      omega
  · rw [if_neg hvalue.not_gt, if_neg hvalue.not_lt, hvalue, zero_mul]
    rfl
  · rw [if_pos hvalue]
    rcases lt_trichotomy factor.toInt 0 with hfactor | hfactor | hfactor
    · rw [if_neg hfactor.le.not_gt, if_pos hfactor]
      have hproduct : value.toInt * factor.toInt < 0 := mul_neg_of_pos_of_neg hvalue hfactor
      obtain ⟨limit, hlimit, hquotient⟩ := div_bound (a := minInt64) hvalue.ne' (.inr hvalue)
      refine bound_eq hlimit ?_
      have hbound := lt_neg_tdiv_iff (a := factor.toInt) hmin hvalue
      rw [mul_comm] at hbound
      rw [Int64.lt_iff_toInt_lt, hquotient, toInt_min, Fits]
      omega
    · rw [if_neg hfactor.not_gt, if_neg hfactor.not_lt, hfactor, mul_zero]
      rfl
    · rw [if_pos hfactor]
      have hproduct : 0 < value.toInt * factor.toInt := mul_pos hvalue hfactor
      obtain ⟨limit, hlimit, hquotient⟩ := div_bound (a := maxInt64) hfactor.ne' (.inr hfactor)
      refine bound_eq hlimit ?_
      have hbound := tdiv_lt_iff (a := value.toInt) hmax hfactor
      rw [Int64.lt_iff_toInt_lt, hquotient, toInt_max, Fits]
      omega

/-- `checked_multiply` -/
theorem checkedMultiply_eq (value factor : Int64) :
    checkedMultiply value factor = orThrow (value.toInt * factor.toInt) overflow :=
  guarded_eq (multiplyOverflows_eq value factor)

end Operations

section Parts

/-- The first and the last count of nanoseconds, in units and the part of a unit beyond them. -/
structure Bounds where
  maxCount : Int64
  maxPart : Int64
  minCount : Int64
  minPart : Int64

def Bounds.ofUnit (unit : Int64) : Machine Bounds := do
  let maxCount ← div maxInt64 unit
  let maxPart ← rem maxInt64 unit
  let minCount ← div minInt64 unit
  let minPart ← rem minInt64 unit
  if minPart < 0 then
    let minCount ← sub minCount 1
    let minPart ← checkedAdd minPart unit
    pure ⟨maxCount, maxPart, minCount, minPart⟩
  else pure ⟨maxCount, maxPart, minCount, minPart⟩

/-- Neither past the last count nor before the first, where the part decides in the outer units. -/
def Bounds.Within (bounds : Bounds) (count part : Int64) : Prop :=
  ¬ (bounds.maxCount < count ∨ (count = bounds.maxCount ∧ bounds.maxPart < part) ∨
    count < bounds.minCount ∨ (count = bounds.minCount ∧ part < bounds.minPart))

instance (bounds : Bounds) (count part : Int64) : Decidable (bounds.Within count part) := by
  unfold Bounds.Within
  infer_instance

def nanosWithin (bounds : Bounds) (unit : Int64) (message : String) (count part : Int64) :
    Machine Int64 := do
  ensure (bounds.Within count part) (Fault.thrown message)
  if count = bounds.minCount then
    let above ← checkedSubtract part bounds.minPart
    checkedAdd minInt64 above
  else
    let whole ← checkedMultiply count unit
    checkedAdd whole part

/-- The nanoseconds of a number of units and a part. -/
def nanosFromParts (unit : Int64) (message : String) (count part : Int64) : Machine Int64 := do
  let bounds ← Bounds.ofUnit unit
  nanosWithin bounds unit message count part

def nanosFromDayTime (daysSinceEpoch timeNanoseconds : Int64) (message : String) : Machine Int64 :=
  nanosFromParts 86400000000000 message daysSinceEpoch timeNanoseconds

def nanosFromUnixParts (epochSeconds : Int64) (nanosecond : Int32) : Machine Int64 :=
  nanosFromParts 1000000000 overflow epochSeconds nanosecond.toInt64

/-- Bounds that are those of a unit. -/
structure Bounds.Correct (bounds : Bounds) (unit : Int64) : Prop where
  unit_pos : 0 < unit.toInt
  last : bounds.maxCount.toInt * unit.toInt + bounds.maxPart.toInt = 2 ^ 63 - 1
  maxPart : 0 ≤ bounds.maxPart.toInt ∧ bounds.maxPart.toInt < unit.toInt
  first : bounds.minCount.toInt * unit.toInt + bounds.minPart.toInt = -2 ^ 63
  minPart : 0 ≤ bounds.minPart.toInt ∧ bounds.minPart.toInt < unit.toInt

variable {bounds : Bounds} {unit count part : Int64} {message : String}

/-- The count behind a step that does not throw. -/
theorem orThrow_bind {n : Int} (h : Fits n) (next : Int64 → Machine Int64) :
    (orThrow n overflow >>= next) = next (.ofInt n) := by
  rw [orThrow_of_fits h]
  rfl

theorem within_iff : bounds.Within count part ↔
    ¬ (bounds.maxCount.toInt < count.toInt ∨
      (count.toInt = bounds.maxCount.toInt ∧ bounds.maxPart.toInt < part.toInt) ∨
      count.toInt < bounds.minCount.toInt ∨
      (count.toInt = bounds.minCount.toInt ∧ part.toInt < bounds.minPart.toInt)) := by
  unfold Bounds.Within
  rw [Int64.lt_iff_toInt_lt, Int64.lt_iff_toInt_lt, Int64.lt_iff_toInt_lt, Int64.lt_iff_toInt_lt,
    ← Int64.toInt_inj, ← Int64.toInt_inj]

/-- Within the bounds no step before the last sum overflows. -/
theorem nanosWithin_eq (hbounds : bounds.Correct unit) :
    nanosWithin bounds unit message count part =
      if bounds.Within count part then orThrow (count.toInt * unit.toInt + part.toInt) overflow
      else .error (.thrown message) := by
  obtain ⟨hunit, hlast, hmaxPart, hfirst, hminPart⟩ := hbounds
  unfold nanosWithin
  by_cases hwithin : bounds.Within count part
  swap
  · rw [if_neg hwithin, ensure, if_neg hwithin]
    rfl
  rw [if_pos hwithin, ensure, if_pos hwithin]
  change (if count = bounds.minCount then _ else _) = _
  have hpart := fits_toInt part
  obtain ⟨hlow, hhigh⟩ := hpart
  rw [within_iff] at hwithin
  by_cases hmin : count = bounds.minCount
  · subst hmin
    have hfits : Fits (part.toInt - bounds.minPart.toInt) := ⟨by omega, by omega⟩
    rw [if_pos rfl, checkedSubtract_eq, orThrow_bind hfits, checkedAdd_eq, toInt_ofInt hfits,
      toInt_min]
    congr 1
    omega
  · have hother : count.toInt ≠ bounds.minCount.toInt := fun h => hmin (Int64.toInt_inj.mp h)
    have habove : (bounds.minCount.toInt + 1) * unit.toInt ≤ count.toInt * unit.toInt :=
      mul_le_mul_of_nonneg_right (by omega) hunit.le
    have hbelow : count.toInt * unit.toInt ≤ bounds.maxCount.toInt * unit.toInt :=
      mul_le_mul_of_nonneg_right (by omega) hunit.le
    rw [add_mul, one_mul] at habove
    have hfits : Fits (count.toInt * unit.toInt) := ⟨by omega, by omega⟩
    rw [if_neg hmin, checkedMultiply_eq, orThrow_bind hfits, checkedAdd_eq, toInt_ofInt hfits]

/-- A part of less than a unit leaves no other reason to throw. -/
theorem nanosWithin_of_part (hbounds : bounds.Correct unit)
    (hpart : 0 ≤ part.toInt ∧ part.toInt < unit.toInt) :
    nanosWithin bounds unit message count part =
      orThrow (count.toInt * unit.toInt + part.toInt) message := by
  have hunit := hbounds.unit_pos
  have hlast := hbounds.last
  have hfirst := hbounds.first
  have hmaxPart := hbounds.maxPart
  have hminPart := hbounds.minPart
  have hle : ∀ m n : Int, m ≤ n → m * unit.toInt ≤ n * unit.toInt :=
    fun m n h => mul_le_mul_of_nonneg_right h hunit.le
  have hup := hle (bounds.maxCount.toInt + 1) count.toInt
  have hdown := hle (count.toInt + 1) bounds.minCount.toInt
  have hup' := hle (count.toInt + 1) bounds.maxCount.toInt
  have hdown' := hle (bounds.minCount.toInt + 1) count.toInt
  simp only [add_mul, one_mul] at hup hdown hup' hdown'
  rw [nanosWithin_eq hbounds]
  have hiff : bounds.Within count part ↔ Fits (count.toInt * unit.toInt + part.toInt) := by
    rw [within_iff]
    unfold Fits
    rcases lt_trichotomy count.toInt bounds.maxCount.toInt with hmax | hmax | hmax
    · rcases lt_trichotomy count.toInt bounds.minCount.toInt with hmin | hmin | hmin
      · have := hdown (by omega)
        omega
      · rw [hmin] at hup' ⊢
        have := hup' (by omega)
        omega
      · have := hup' (by omega)
        have := hdown' (by omega)
        omega
    · rcases lt_trichotomy count.toInt bounds.minCount.toInt with hmin | hmin | hmin
      · have := hdown (by omega)
        omega
      · rw [hmax] at hmin ⊢
        rw [hmin] at hlast ⊢
        omega
      · have := hdown' (by omega)
        rw [hmax] at this ⊢
        omega
    · have := hup (by omega)
      omega
  by_cases hwithin : bounds.Within count part
  · rw [if_pos hwithin, orThrow_of_fits (hiff.mp hwithin), orThrow_of_fits (hiff.mp hwithin)]
  · rw [if_neg hwithin, orThrow, if_neg (fun h => hwithin (hiff.mpr h))]

/-- A function gives `value` where it accepts its arguments and 64 bits hold the value, throws for
all other arguments, and is defined for all of them. -/
structure Exact (result : Machine Int64) (value : Int) (accepts : Prop) : Prop where
  defined : result ≠ .error .undefined
  returns : ∀ n, result = .ok n ↔ accepts ∧ n.toInt = value

theorem exact_orThrow (n : Int) (message : String) : Exact (orThrow n message) n True :=
  ⟨orThrow_defined, fun _ => by rw [orThrow_eq_ok, true_and]⟩

theorem nanosWithin_exact (hbounds : bounds.Correct unit) :
    Exact (nanosWithin bounds unit message count part)
      (count.toInt * unit.toInt + part.toInt)
      ((0 ≤ part.toInt ∧ part.toInt < unit.toInt) ∨
        (bounds.minCount.toInt ≤ count.toInt ∧ count.toInt ≤ bounds.maxCount.toInt)) := by
  have hresult := @nanosWithin_eq _ _ count part message hbounds
  refine ⟨?_, fun n => ⟨fun h => ?_, ?_⟩⟩
  · rw [hresult]
    split_ifs
    · exact orThrow_defined
    · exact fun h => nomatch h
  · rw [hresult] at h
    split_ifs at h with hwithin
    rw [within_iff] at hwithin
    exact ⟨.inr ⟨by omega, by omega⟩, orThrow_eq_ok.mp h⟩
  · rintro ⟨hpart | ⟨hmin, hmax⟩, hvalue⟩
    · rw [nanosWithin_of_part hbounds hpart]
      exact orThrow_eq_ok.mpr hvalue
    · have hwithin : bounds.Within count part := by
        have hlast := hbounds.last
        have hfirst := hbounds.first
        obtain ⟨hlow, hhigh⟩ := fits_toInt n
        rw [within_iff]
        rintro (h | ⟨hsame, h⟩ | h | ⟨hsame, h⟩)
        · omega
        · rw [hsame] at hvalue
          omega
        · omega
        · rw [hsame] at hvalue
          omega
      rw [hresult, if_pos hwithin]
      exact orThrow_eq_ok.mpr hvalue

def dayBounds : Bounds := ⟨106751, 85636854775807, -106752, 763145224192⟩

def secondBounds : Bounds := ⟨9223372036, 854775807, -9223372037, 145224192⟩

theorem dayBounds_correct : dayBounds.Correct 86400000000000 := by
  refine ⟨?_, ?_, ?_, ?_, ?_⟩ <;> decide

theorem secondBounds_correct : secondBounds.Correct 1000000000 := by
  refine ⟨?_, ?_, ?_, ?_, ?_⟩ <;> decide

theorem nanosFromDayTime_eq (days time : Int64) (message : String) :
    nanosFromDayTime days time message =
      nanosWithin dayBounds 86400000000000 message days time := rfl

theorem nanosFromUnixParts_eq (seconds : Int64) (nanosecond : Int32) :
    nanosFromUnixParts seconds nanosecond =
      nanosWithin secondBounds 1000000000 overflow seconds nanosecond.toInt64 := rfl

/-- A day and a time within a day make a date-time, or throw as the unbounded sum does. -/
theorem nanosFromDayTime_of_time {days time : Int64}
    (htime : 0 ≤ time.toInt ∧ time.toInt < nanosPerDay) (message : String) :
    nanosFromDayTime days time message =
      orThrow (days.toInt * nanosPerDay + time.toInt) message := by
  rw [nanosFromDayTime_eq]
  exact nanosWithin_of_part dayBounds_correct htime

end Parts

/-- The checked operations throw only where 64 bits do not hold the result. The two functions that
put a count together do so as well for a part of less than a unit; other parts they accept only
with a number of days or seconds within the range. -/
theorem checked_nanoseconds :
    (∀ left right, Exact (checkedAdd left right) (left.toInt + right.toInt) True) ∧
    (∀ left right, Exact (checkedSubtract left right) (left.toInt - right.toInt) True) ∧
    (∀ value factor, Exact (checkedMultiply value factor) (value.toInt * factor.toInt) True) ∧
    (∀ days time message, Exact (nanosFromDayTime days time message)
      (days.toInt * nanosPerDay + time.toInt)
      ((0 ≤ time.toInt ∧ time.toInt < nanosPerDay) ∨
        (-106752 ≤ days.toInt ∧ days.toInt ≤ 106751))) ∧
    ∀ (seconds : Int64) (nanosecond : Int32), Exact (nanosFromUnixParts seconds nanosecond)
      (seconds.toInt * nanosPerSecond + nanosecond.toInt)
      ((0 ≤ nanosecond.toInt ∧ nanosecond.toInt < nanosPerSecond) ∨
        (-9223372037 ≤ seconds.toInt ∧ seconds.toInt ≤ 9223372036)) := by
  refine ⟨fun left right => ?_, fun left right => ?_, fun value factor => ?_,
    fun days time message => ?_, fun seconds nanosecond => ?_⟩
  · rw [checkedAdd_eq]
    exact exact_orThrow _ _
  · rw [checkedSubtract_eq]
    exact exact_orThrow _ _
  · rw [checkedMultiply_eq]
    exact exact_orThrow _ _
  · rw [nanosFromDayTime_eq]
    exact nanosWithin_exact dayBounds_correct
  · rw [nanosFromUnixParts_eq, ← Int32.toInt_toInt64]
    exact nanosWithin_exact secondBounds_correct

/-- One day past the range, and one day back in the time; likewise a second. -/
theorem day_past_the_range_throws :
    (nanosFromDayTime 106752 (-86400000000000) outsideLocalRange =
        .error (.thrown outsideLocalRange) ∧
      Fits (106752 * nanosPerDay + -86400000000000)) ∧
    (nanosFromUnixParts 9223372037 (-1000000000) = .error (.thrown overflow) ∧
      Fits (9223372037 * nanosPerSecond + -1000000000)) := by
  decide

end Checked

end Space2.Temporal
