import Space2.Base.Checks
import Mathlib

/-!
# Arithmetic on signed integers

An operation on signed integers of 64 bits has a value when its exact result fits, and has no
defined behaviour otherwise. A checked operation throws instead.
-/
namespace Space2.Base

/-- Why a computation on signed integers has no value. -/
inductive Fault
  | thrown (message : String)
  | undefined
  deriving DecidableEq, Repr

abbrev Machine := Except Fault

namespace Signed

def Fits (n : Int) : Prop := -2 ^ 63 ≤ n ∧ n < 2 ^ 63

instance (n : Int) : Decidable (Fits n) := by
  unfold Fits
  infer_instance

def exact (n : Int) : Machine Int64 := if Fits n then .ok (.ofInt n) else .error .undefined

def add (a b : Int64) : Machine Int64 := exact (a.toInt + b.toInt)
def sub (a b : Int64) : Machine Int64 := exact (a.toInt - b.toInt)
def mul (a b : Int64) : Machine Int64 := exact (a.toInt * b.toInt)

/-- A quotient is cut towards zero. -/
def div (a b : Int64) : Machine Int64 :=
  if b = 0 then .error .undefined else exact (a.toInt.tdiv b.toInt)

/-- A remainder is undefined where the quotient is. -/
def rem (a b : Int64) : Machine Int64 := do
  let _ ← div a b
  exact (a.toInt.tmod b.toInt)

/-- The exact result, or an exception when it does not fit. -/
def orThrow (n : Int) (message : String) : Machine Int64 :=
  if Fits n then .ok (.ofInt n) else .error (.thrown message)

/-- An operation after a test whether it overflows. -/
def guarded (overflows : Machine Bool) (message : String) (result : Machine Int64) :
    Machine Int64 := do
  let found ← overflows
  ensure (found = false) (Fault.thrown message)
  result

variable {n m : Int} {a b r : Int64} {message : String}

theorem fits_toInt (a : Int64) : Fits a.toInt := ⟨a.le_toInt, a.toInt_lt⟩

theorem toInt_ofInt (h : Fits n) : (Int64.ofInt n).toInt = n := Int64.toInt_ofInt_of_le h.1 h.2

theorem exact_of_fits (h : Fits n) : exact n = .ok (.ofInt n) := if_pos h

theorem exact_eq_ok : exact n = .ok r ↔ r.toInt = n := by
  unfold exact
  constructor
  · intro h
    split_ifs at h with hfits
    rw [← Except.ok.inj h, toInt_ofInt hfits]
  · rintro rfl
    rw [if_pos (fits_toInt r), Int64.ofInt_toInt]

theorem orThrow_eq_ok : orThrow n message = .ok r ↔ r.toInt = n := by
  unfold orThrow
  constructor
  · intro h
    split_ifs at h with hfits
    rw [← Except.ok.inj h, toInt_ofInt hfits]
  · rintro rfl
    rw [if_pos (fits_toInt r), Int64.ofInt_toInt]

theorem orThrow_of_fits (h : Fits n) : orThrow n message = .ok (.ofInt n) := if_pos h

theorem orThrow_defined : orThrow n message ≠ .error .undefined := by
  unfold orThrow
  split_ifs
  · exact fun h => nomatch h
  · exact fun h => nomatch h

/-- A test that is exact turns overflow into an exception. -/
theorem guarded_eq {overflows : Machine Bool} (h : overflows = .ok (decide (¬ Fits n))) :
    guarded overflows message (exact n) = orThrow n message := by
  unfold guarded exact orThrow
  rw [h]
  by_cases hfits : Fits n
  · rw [if_pos hfits, if_pos hfits, decide_eq_false (not_not.mpr hfits)]
    rfl
  · rw [if_neg hfits, if_neg hfits, decide_eq_true hfits]
    rfl

theorem div_eq_ok (hb : b ≠ 0) : div a b = .ok r ↔ r.toInt = a.toInt.tdiv b.toInt := by
  rw [div, if_neg hb, exact_eq_ok]

/-- A quotient by a positive number is defined. -/
theorem div_of_pos (h : 0 < b.toInt) : div a b = .ok (.ofInt (a.toInt.tdiv b.toInt)) := by
  have hnonzero : b ≠ 0 := by
    rintro rfl
    exact absurd h (by decide)
  obtain ⟨hlow, hhigh⟩ := fits_toInt a
  have hbound := Int.natAbs_tdiv_le_natAbs a.toInt b.toInt
  rw [div, if_neg hnonzero, exact_of_fits]
  by_cases hsign : 0 ≤ a.toInt
  · have := Int.tdiv_nonneg hsign h.le
    exact ⟨by omega, by omega⟩
  · have hopposite := Int.tdiv_nonneg (a := -a.toInt) (by omega) h.le
    rw [Int.neg_tdiv] at hopposite
    exact ⟨by omega, by omega⟩

theorem rem_of_pos (h : 0 < b.toInt) : rem a b = .ok (.ofInt (a.toInt.tmod b.toInt)) := by
  have hbound := Int.tmod_lt_of_pos a.toInt h
  have hlow := Int.lt_tmod_of_pos a.toInt h
  obtain ⟨-, hhigh⟩ := fits_toInt b
  rw [rem, div_of_pos h]
  exact exact_of_fits ⟨by omega, by omega⟩

section Whole

theorem ok_bind {α β : Type} (x : α) (f : α → Machine β) : (Except.ok x >>= f) = f x := rfl

theorem fits_of_bounds (hlow : -2 ^ 63 ≤ n) (hhigh : n < 2 ^ 63) : Fits n := ⟨hlow, hhigh⟩

theorem sub_ofInt (hn : Fits n) (hm : Fits m) (h : Fits (n - m)) :
    sub (.ofInt n) (.ofInt m) = .ok (.ofInt (n - m)) := by
  rw [sub, toInt_ofInt hn, toInt_ofInt hm]
  exact exact_of_fits h

theorem mul_ofInt (hn : Fits n) (hm : Fits m) (h : Fits (n * m)) :
    mul (.ofInt n) (.ofInt m) = .ok (.ofInt (n * m)) := by
  rw [mul, toInt_ofInt hn, toInt_ofInt hm]
  exact exact_of_fits h

theorem div_ofInt (hn : Fits n) (hm : Fits m) (hnonneg : 0 ≤ n) (hpos : 0 < m) :
    div (.ofInt n) (.ofInt m) = .ok (.ofInt (n / m)) := by
  rw [div_of_pos (by rwa [toInt_ofInt hm]), toInt_ofInt hn, toInt_ofInt hm,
    Int.tdiv_eq_ediv_of_nonneg hnonneg]

end Whole

end Signed

end Space2.Base
