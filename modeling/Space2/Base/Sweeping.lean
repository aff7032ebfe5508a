import Mathlib.Data.List.ReduceOption
import Space2.Base.Checks

/-!
# Sweeps over a list

A sweep judges the members of a list one by one, each with its index. A judgement
raises, drops the member or gives what stands in its place. A member that is
judged to itself at every index is settled, so a sweep over a list in which all
but one member are settled is decided by that member.
-/
namespace Space2.Base

variable {α β ε : Type}

def sweep (judge : α → Nat → Except ε (Option α)) (l : List α) (k : Nat) : Except ε (List α) :=
  List.reduceOption <$> (l.zipIdx k).mapM fun entry => judge entry.1 entry.2

def Settled (judge : α → Nat → Except ε (Option α)) (a : α) : Prop :=
  ∀ k, judge a k = .ok (some a)

variable {judge : α → Nat → Except ε (Option α)} {l front back : List α} {a : α} {k : Nat}

theorem sweep_nil (k : Nat) : sweep judge [] k = .ok [] := rfl

theorem sweep_cons (a : α) (l : List α) (k : Nat) :
    sweep judge (a :: l) k =
      judge a k >>= fun first =>
        sweep judge l (k + 1) >>= fun rest => pure (first.toList ++ rest) := by
  unfold sweep
  rw [List.zipIdx_cons, List.mapM_cons]
  cases judge a k with
  | error e => rfl
  | ok first =>
    cases (l.zipIdx (k + 1)).mapM fun entry => judge entry.1 entry.2 with
    | error e => rfl
    | ok rest => cases first <;> rfl

theorem sweep_append (l r : List α) (k : Nat) :
    sweep judge (l ++ r) k =
      sweep judge l k >>= fun front =>
        sweep judge r (k + l.length) >>= fun back => pure (front ++ back) := by
  induction l generalizing k with
  | nil =>
    change sweep judge r k = sweep judge r k >>= fun back => pure ([] ++ back)
    cases sweep judge r k <;> rfl
  | cons a l ih =>
    have hindex : k + (a :: l).length = k + 1 + l.length := by
      rw [List.length_cons]
      omega
    rw [List.cons_append, sweep_cons, sweep_cons, ih, hindex]
    cases judge a k with
    | error e => rfl
    | ok first =>
      cases sweep judge l (k + 1) with
      | error e => rfl
      | ok rest =>
        cases sweep judge r (k + 1 + l.length) with
        | error e => rfl
        | ok last => exact congrArg Except.ok (List.append_assoc _ _ _).symm

theorem sweep_settled (h : ∀ a ∈ l, Settled judge a) (k : Nat) : sweep judge l k = .ok l := by
  induction l generalizing k with
  | nil => rfl
  | cons a l ih =>
    obtain ⟨ha, hl⟩ := List.forall_mem_cons.mp h
    rw [sweep_cons, ha k, ih hl (k + 1)]
    rfl

theorem sweep_length_le {r : List α} (h : sweep judge l k = .ok r) : r.length ≤ l.length := by
  induction l generalizing k r with
  | nil =>
    cases h
    exact Nat.le_refl 0
  | cons a l ih =>
    rw [sweep_cons] at h
    simp only [bind_eq_ok, pure_eq_ok] at h
    obtain ⟨first, -, rest, hrest, rfl⟩ := h
    have hle := ih hrest
    rw [List.length_append, List.length_cons]
    cases first with
    | none => exact Nat.le_succ_of_le (by simpa using hle)
    | some b =>
      rw [Option.toList_some, List.length_singleton]
      omega

/-- A list that a sweep leaves as it is has only settled members, if the index does not matter to
a member that is judged to itself. -/
theorem settled_of_sweep (hindex : ∀ a i j, judge a i = .ok (some a) → judge a j = .ok (some a))
    (h : sweep judge l k = .ok l) : ∀ a ∈ l, Settled judge a := by
  induction l generalizing k with
  | nil => exact fun a ha => absurd ha List.not_mem_nil
  | cons a l ih =>
    rw [sweep_cons] at h
    simp only [bind_eq_ok, pure_eq_ok] at h
    obtain ⟨first, hfirst, rest, hrest, hlist⟩ := h
    cases first with
    | none =>
      have hlonger := sweep_length_le hrest
      rw [Option.toList_none, List.nil_append] at hlist
      rw [hlist, List.length_cons] at hlonger
      exact absurd hlonger (Nat.not_succ_le_self _)
    | some b =>
      obtain ⟨rfl, rfl⟩ := List.cons.inj hlist
      exact List.forall_mem_cons.mpr ⟨fun j => hindex b k j hfirst, ih hrest⟩

theorem sweep_middle (hfront : ∀ a ∈ front, Settled judge a) (hback : ∀ a ∈ back, Settled judge a)
    (a : α) (k : Nat) :
    sweep judge (front ++ a :: back) k =
      (fun found => front ++ found.toList ++ back) <$> judge a (k + front.length) := by
  rw [sweep_append, sweep_settled hfront, sweep_cons, sweep_settled hback]
  cases judge a (k + front.length) with
  | error e => rfl
  | ok found => exact congrArg Except.ok (List.append_assoc _ _ _).symm

end Space2.Base
