import Mathlib.Data.List.TakeDrop
import Mathlib.Data.Set.Basic
import Mathlib.Order.Basic

/-!
# The first members of a set

`Firsts limit S l` says that `l` lists the first members of `S` in ascending order, as many as the
limit allows, or all of them. Such a list is unique, a smaller limit gives a prefix of it, and it
can be built bucket by bucket when each bucket lies above the ones before it.
-/
namespace Space2.Base

variable {α : Type}

section Cutting

def takeUpTo (limit : Option Nat) (l : List α) : List α :=
  match limit with
  | none => l
  | some n => l.take n

variable {limit : Option Nat} {l : List α}

theorem takeUpTo_sublist : (takeUpTo limit l).Sublist l := by
  cases limit with
  | none => exact List.Sublist.refl l
  | some n => exact List.take_sublist n l

theorem takeUpTo_of_length_le (h : ∀ n, limit = some n → l.length ≤ n) : takeUpTo limit l = l := by
  cases limit with
  | none => rfl
  | some n => exact List.take_of_length_le (h n rfl)

end Cutting

variable [LinearOrder α]

structure Firsts (limit : Option Nat) (S : Set α) (l : List α) : Prop where
  ascending : l.Pairwise (· < ·)
  sound : ∀ a ∈ l, a ∈ S
  bounded : ∀ n, limit = some n → l.length ≤ n
  complete : ∀ a ∈ S, a ∈ l ∨ (∃ n, limit = some n ∧ n ≤ l.length) ∧ ∀ b ∈ l, b < a

variable {limit : Option Nat} {S U : Set α} {l m : List α}

/-- What a list in ascending order leaves out past its limit lies above what it keeps. -/
theorem mem_takeUpTo_or (h : l.Pairwise (· < ·)) {a : α} (ha : a ∈ l) :
    a ∈ takeUpTo limit l ∨
      (∃ n, limit = some n ∧ n ≤ (takeUpTo limit l).length) ∧ ∀ b ∈ takeUpTo limit l, b < a := by
  cases limit with
  | none => exact .inl ha
  | some n =>
    have hsplit := List.take_append_drop n l
    rw [← hsplit, List.mem_append] at ha
    rcases ha with ha | ha
    · exact .inl ha
    · rw [← hsplit] at h
      have hlength : n ≤ (l.take n).length := by
        have := List.length_pos_of_mem ha
        rw [List.length_drop] at this
        rw [List.length_take]
        omega
      exact .inr ⟨⟨n, rfl, hlength⟩, fun b hb => (List.pairwise_append.mp h).2.2 b hb a ha⟩

theorem Firsts.nil : Firsts limit (∅ : Set α) [] where
  ascending := List.Pairwise.nil
  sound _ ha := absurd ha List.not_mem_nil
  bounded _ _ := Nat.zero_le _
  complete _ ha := absurd ha (Set.notMem_empty _)

/-- All members in ascending order, cut at the limit. -/
theorem Firsts.of_list (h : l.Pairwise (· < ·)) (hS : ∀ a, a ∈ S ↔ a ∈ l) :
    Firsts limit S (takeUpTo limit l) where
  ascending := h.sublist takeUpTo_sublist
  sound a ha := (hS a).mpr (takeUpTo_sublist.subset ha)
  bounded n hn := by
    subst hn
    exact List.length_take_le n l
  complete a ha := mem_takeUpTo_or h ((hS a).mp ha)

/-- One more bucket above all that was listed before. -/
theorem Firsts.append (h : Firsts limit U l) (hm : m.Pairwise (· < ·))
    (habove : ∀ a ∈ U, ∀ b ∈ m, a < b) :
    Firsts limit (U ∪ {b | b ∈ m}) (takeUpTo limit (l ++ m)) := by
  have hall : (l ++ m).Pairwise (· < ·) := List.pairwise_append.mpr
    ⟨h.ascending, hm, fun a ha b hb => habove a (h.sound a ha) b hb⟩
  have hkept : l <+: takeUpTo limit (l ++ m) := by
    cases limit with
    | none => exact List.prefix_append l m
    | some n =>
      change l <+: (l ++ m).take n
      rw [List.take_append, List.take_of_length_le (h.bounded n rfl)]
      exact List.prefix_append l _
  refine ⟨hall.sublist takeUpTo_sublist, ?_, ?_, ?_⟩
  · intro a ha
    exact (List.mem_append.mp (takeUpTo_sublist.subset ha)).imp (h.sound a) id
  · rintro n rfl
    exact List.length_take_le n (l ++ m)
  · rintro a (ha | ha)
    · rcases h.complete a ha with hmem | ⟨⟨n, rfl, hn⟩, hbelow⟩
      · exact .inl (hkept.subset hmem)
      · have heq : takeUpTo (some n) (l ++ m) = l := by
          change (l ++ m).take n = l
          rw [Nat.le_antisymm hn (h.bounded n rfl), List.take_left]
        rw [heq]
        exact .inr ⟨⟨n, rfl, hn⟩, hbelow⟩
    · exact mem_takeUpTo_or hall (List.mem_append_right l ha)

/-- A full list stays the same when what is left lies above it. -/
theorem Firsts.of_full (h : Firsts limit U l) (hfull : ∃ n, limit = some n ∧ n ≤ l.length)
    (hsub : U ⊆ S) (habove : ∀ a ∈ S, a ∈ U ∨ ∀ b ∈ U, b < a) : Firsts limit S l where
  ascending := h.ascending
  sound a ha := hsub (h.sound a ha)
  bounded := h.bounded
  complete a ha := by
    rcases habove a ha with hU | hall
    · exact h.complete a hU
    · exact .inr ⟨hfull, fun b hb => hall b (h.sound b hb)⟩

theorem Firsts.tail {a : α} (h : Firsts limit S (a :: l)) :
    Firsts (limit.map (· - 1)) {b | b ∈ S ∧ a < b} l := by
  obtain ⟨hfirst, hrest⟩ := List.pairwise_cons.mp h.ascending
  refine ⟨hrest, fun b hb => ⟨h.sound b (List.mem_cons_of_mem a hb), hfirst b hb⟩, ?_, ?_⟩
  · intro n hn
    obtain ⟨k, rfl, rfl⟩ := Option.map_eq_some_iff.mp hn
    have := h.bounded k rfl
    rw [List.length_cons] at this
    omega
  · rintro b ⟨hb, hab⟩
    rcases h.complete b hb with hmem | ⟨⟨n, rfl, hn⟩, hbelow⟩
    · rcases List.mem_cons.mp hmem with rfl | hmem
      · exact absurd hab (lt_irrefl b)
      · exact .inl hmem
    · rw [List.length_cons] at hn
      exact .inr ⟨⟨n - 1, rfl, by omega⟩, fun c hc => hbelow c (List.mem_cons_of_mem a hc)⟩

/-- The head is the least member. -/
theorem Firsts.head_le {a b : α} (h : Firsts limit S (a :: l)) (hb : b ∈ S) : a ≤ b := by
  rcases h.complete b hb with hmem | ⟨-, hbelow⟩
  · rcases List.mem_cons.mp hmem with rfl | hmem
    · exact le_rfl
    · exact ((List.pairwise_cons.mp h.ascending).1 b hmem).le
  · exact (hbelow a List.mem_cons_self).le

/-- Of two such lists the shorter is where the longer begins. -/
theorem Firsts.prefix_of_le {limit' : Option Nat} (h : Firsts limit S l) (h' : Firsts limit' S m)
    (hle : l.length ≤ m.length) : l <+: m := by
  induction l generalizing m S limit limit' with
  | nil => exact List.nil_prefix
  | cons a l ih =>
    cases m with
    | nil => exact absurd hle (by simp)
    | cons b m =>
      have hab : a = b := le_antisymm (h.head_le (h'.sound b List.mem_cons_self))
        (h'.head_le (h.sound a List.mem_cons_self))
      subst hab
      exact List.cons_prefix_cons.mpr ⟨rfl, ih h.tail h'.tail (by simpa using hle)⟩

/-- A list that is neither cut short nor at its limit goes no further. -/
theorem Firsts.eq_of_prefix {limit' : Option Nat} (h : Firsts limit S l) (h' : Firsts limit' S m)
    (hinitial : l <+: m) (hlimit : ∀ n, limit = some n → m.length ≤ n) : l = m := by
  obtain ⟨t, rfl⟩ := hinitial
  cases t with
  | nil => exact (List.append_nil l).symm
  | cons a t =>
    have ha : a ∈ l ++ a :: t := List.mem_append_right l List.mem_cons_self
    rcases h.complete a (h'.sound a ha) with hmem | ⟨⟨n, hn, hfull⟩, -⟩
    · have hlt := (List.pairwise_append.mp h'.ascending).2.2 a hmem a List.mem_cons_self
      exact absurd hlt (lt_irrefl a)
    · have := hlimit n hn
      rw [List.length_append, List.length_cons] at this
      omega

theorem Firsts.unique (h : Firsts limit S l) (h' : Firsts limit S m) : l = m := by
  rcases Nat.le_total l.length m.length with hle | hle
  · exact h.eq_of_prefix h' (h.prefix_of_le h' hle) h'.bounded
  · exact (h'.eq_of_prefix h (h'.prefix_of_le h hle) h.bounded).symm

/-- A smaller limit keeps the first of what a larger one lists. -/
theorem Firsts.eq_take {limit' : Option Nat} {n : Nat} (h : Firsts (some n) S l)
    (h' : Firsts limit' S m) (hlimit : ∀ k, limit' = some k → n ≤ k) : l = m.take n := by
  have hcut : Firsts (some n) S (m.take n) := by
    refine ⟨h'.ascending.sublist (List.take_sublist n m),
      fun a ha => h'.sound a (List.mem_of_mem_take ha), ?_, ?_⟩
    · rintro k hk
      obtain rfl := Option.some.inj hk
      exact List.length_take_le n m
    · intro a ha
      rcases h'.complete a ha with hmem | ⟨⟨k, hk, hfull⟩, hbelow⟩
      · exact @mem_takeUpTo_or _ _ (some n) _ h'.ascending _ hmem
      · have := hlimit k hk
        refine .inr ⟨⟨n, rfl, ?_⟩, fun b hb => hbelow b (List.mem_of_mem_take hb)⟩
        rw [List.length_take]
        omega
  exact h.unique hcut

section Buckets

variable (bucket : Nat → Set α) (window : Set α)

/-- Every bucket lies above the ones before it. -/
def Ascends : Prop := ∀ j k, j < k → ∀ a ∈ bucket j, ∀ b ∈ bucket k, a < b

/-- What the buckets before the `k`-th hold within the window. -/
def below (k : Nat) : Set α := {a | a ∈ window ∧ ∃ j < k, a ∈ bucket j}

/-- What all buckets hold within the window. -/
def collected : Set α := {a | a ∈ window ∧ ∃ j, a ∈ bucket j}

variable {bucket window} {k : Nat}

omit [LinearOrder α] in
theorem below_subset : below bucket window k ⊆ collected bucket window :=
  fun _ ⟨hwindow, j, _, hj⟩ => ⟨hwindow, j, hj⟩

theorem Firsts.start : Firsts limit (below bucket window 0) [] := by
  have hempty : below bucket window 0 = ∅ := by
    rw [Set.eq_empty_iff_forall_notMem]
    rintro a ⟨-, j, hj, -⟩
    exact Nat.not_lt_zero j hj
  rw [hempty]
  exact Firsts.nil

theorem Firsts.next (hbucket : Ascends bucket) (h : Firsts limit (below bucket window k) l)
    (hm : m.Pairwise (· < ·)) (hmem : ∀ a, a ∈ m ↔ a ∈ window ∧ a ∈ bucket k) :
    Firsts limit (below bucket window (k + 1)) (takeUpTo limit (l ++ m)) := by
  have hset : below bucket window (k + 1) = below bucket window k ∪ {b | b ∈ m} := by
    ext a
    constructor
    · rintro ⟨hwindow, j, hj, ha⟩
      rcases Nat.lt_succ_iff_lt_or_eq.mp hj with hlt | rfl
      · exact .inl ⟨hwindow, j, hlt, ha⟩
      · exact .inr ((hmem a).mpr ⟨hwindow, ha⟩)
    · rintro (⟨hwindow, j, hj, ha⟩ | ha)
      · exact ⟨hwindow, j, by omega, ha⟩
      · exact ⟨((hmem a).mp ha).1, k, by omega, ((hmem a).mp ha).2⟩
  rw [hset]
  refine h.append hm ?_
  rintro a ⟨-, j, hj, ha⟩ b hb
  exact hbucket j k hj a ha b ((hmem b).mp hb).2

/-- The limit is reached: the other buckets lie above all that is listed. -/
theorem Firsts.of_limit (hbucket : Ascends bucket) (h : Firsts limit (below bucket window k) l)
    (hfull : ∃ n, limit = some n ∧ n ≤ l.length) : Firsts limit (collected bucket window) l := by
  refine h.of_full hfull below_subset ?_
  rintro a ⟨hwindow, j, ha⟩
  by_cases hj : j < k
  · exact .inl ⟨hwindow, j, hj, ha⟩
  · refine .inr ?_
    rintro b ⟨-, i, hi, hb⟩
    exact hbucket i j (by omega) b hb a ha

/-- The other buckets hold nothing within the window. -/
theorem Firsts.of_past (h : Firsts limit (below bucket window k) l)
    (hpast : ∀ j, k ≤ j → ∀ a ∈ bucket j, a ∉ window) :
    Firsts limit (collected bucket window) l := by
  have hset : collected bucket window = below bucket window k := by
    refine Set.Subset.antisymm ?_ below_subset
    rintro a ⟨hwindow, j, ha⟩
    by_cases hj : j < k
    · exact ⟨hwindow, j, hj, ha⟩
    · exact absurd hwindow (hpast j (by omega) a ha)
  rw [hset]
  exact h

end Buckets

end Space2.Base
