import Mathlib

/-!
# How many members fall into a window

In an ascending list at most `limit` members fall into every half-open window of a
given width exactly when members `limit` places apart are that width apart.
-/
namespace Space2.Base

variable {K : Type*} [AddCommGroup K] [LinearOrder K]

def inWindow (width : K) (l : List K) (start : K) : List K :=
  l.filter fun r => decide (start ≤ r ∧ r < start + width)

/-- Every half-open window holds at most `limit` members. -/
def Limited (limit : Nat) (width : K) (l : List K) : Prop :=
  ∀ start, (inWindow width l start).length ≤ limit

def Spaced (limit : Nat) (width : K) (l : List K) : Prop :=
  ∀ i r r', l[i]? = some r → l[i + limit]? = some r' → r + width ≤ r'

variable {limit : Nat} {width : K} {l : List K}

omit [AddCommGroup K] in
theorem ascending_getElem? (h : l.Pairwise (· ≤ ·)) {i j : Nat} (hij : i ≤ j) {r r' : K}
    (hr : l[i]? = some r) (hr' : l[j]? = some r') : r ≤ r' := by
  obtain ⟨hi, rfl⟩ := List.getElem?_eq_some_iff.mp hr
  obtain ⟨hj, rfl⟩ := List.getElem?_eq_some_iff.mp hr'
  rcases Nat.eq_or_lt_of_le hij with heq | hlt
  · subst heq
    exact le_rfl
  · exact List.pairwise_iff_getElem.mp h i j hi hj hlt

theorem spaced_of_limited (hsorted : l.Pairwise (· ≤ ·)) (h : Limited limit width l) :
    Spaced limit width l := by
  intro i r r' hr hr'
  by_contra hclose
  rw [not_le] at hclose
  have hblock : ((l.drop i).take (limit + 1)).Sublist (inWindow width l r) := by
    have hsub : ((l.drop i).take (limit + 1)).Sublist l :=
      (List.take_sublist _ _).trans (List.drop_sublist _ _)
    have hall : inWindow width ((l.drop i).take (limit + 1)) r = (l.drop i).take (limit + 1) := by
      refine List.filter_eq_self.mpr fun x hx => ?_
      obtain ⟨k, hk, rfl⟩ := List.mem_iff_getElem.mp hx
      have hkl : k < limit + 1 := lt_of_lt_of_le hk (by simp)
      have hget : l[i + k]? = some ((l.drop i).take (limit + 1))[k] := by
        rw [List.getElem_take, List.getElem_drop]
        exact List.getElem?_eq_getElem _
      have hfirst := ascending_getElem? hsorted (Nat.le_add_right i k) hr hget
      have hlast := ascending_getElem? hsorted (Nat.add_le_add_left (Nat.le_of_lt_succ hkl) i) hget hr'
      exact decide_eq_true ⟨hfirst, lt_of_le_of_lt hlast hclose⟩
    rw [← hall]
    exact hsub.filter _
  have hlength := hblock.length_le.trans (h r)
  obtain ⟨hlast, -⟩ := List.getElem?_eq_some_iff.mp hr'
  rw [List.length_take, List.length_drop] at hlength
  omega

theorem limited_of_spaced [IsOrderedAddMonoid K] (hsorted : l.Pairwise (· ≤ ·))
    (h : Spaced limit width l) : Limited limit width l := by
  intro start
  by_contra hmany
  rw [not_le] at hmany
  obtain ⟨place, hplace⟩ := List.sublist_iff_exists_orderEmbedding_getElem?_eq.mp
    (List.filter_sublist : (inWindow width l start).Sublist l)
  have hmember : ∀ k (hk : k < (inWindow width l start).length),
      start ≤ (inWindow width l start)[k] ∧ (inWindow width l start)[k] < start + width := by
    intro k hk
    have hfiltered := List.mem_filter.mp (List.getElem_mem hk)
    exact of_decide_eq_true hfiltered.2
  have hzero : 0 < (inWindow width l start).length := by omega
  have hfirst : l[place 0]? = some (inWindow width l start)[0] := by
    rw [← hplace 0]
    exact List.getElem?_eq_getElem hzero
  have hlast : l[place limit]? = some (inWindow width l start)[limit] := by
    rw [← hplace limit]
    exact List.getElem?_eq_getElem hmany
  -- the places of the members go up, so those of the first and the last are `limit` apart
  have happart : place 0 + limit ≤ place limit := by
    have hmono := place.strictMono.add_le_nat limit 0
    rwa [Nat.add_zero, Nat.add_comm] at hmono
  have hbetween : place 0 + limit < l.length :=
    lt_of_le_of_lt happart (List.getElem?_eq_some_iff.mp hlast).1
  have hwidth := h (place 0) _ _ hfirst (List.getElem?_eq_getElem hbetween)
  have hascending := ascending_getElem? hsorted happart (List.getElem?_eq_getElem hbetween) hlast
  have hreach : start + width ≤ (inWindow width l start)[0] + width :=
    add_le_add_left (hmember 0 hzero).1 width
  exact absurd ((hreach.trans hwidth).trans hascending) (not_le.mpr (hmember limit hmany).2)

theorem limited_iff_spaced [IsOrderedAddMonoid K] (hsorted : l.Pairwise (· ≤ ·)) :
    Limited limit width l ↔ Spaced limit width l :=
  ⟨spaced_of_limited hsorted, limited_of_spaced hsorted⟩

/-- One more member has to keep its distance from the one `limit` places before it. -/
theorem spaced_append_singleton (hlimit : 0 < limit) {r : K} :
    Spaced limit width (l ++ [r]) ↔ Spaced limit width l ∧
      ∀ earlier, limit ≤ l.length → l[l.length - limit]? = some earlier → earlier + width ≤ r := by
  constructor
  · intro h
    constructor
    · intro i a b ha hb
      have hai := (List.getElem?_eq_some_iff.mp ha).1
      have hbi := (List.getElem?_eq_some_iff.mp hb).1
      refine h i a b ?_ ?_
      · rw [List.getElem?_append_left hai]
        exact ha
      · rw [List.getElem?_append_left hbi]
        exact hb
    · intro earlier hlong hearlier
      refine h (l.length - limit) earlier r ?_ ?_
      · rw [List.getElem?_append_left (by omega)]
        exact hearlier
      · rw [Nat.sub_add_cancel hlong]
        exact List.getElem?_concat_length
  · rintro ⟨hspaced, hnew⟩ i a b ha hb
    rcases Nat.lt_trichotomy (i + limit) l.length with hlt | heq | hgt
    · rw [List.getElem?_append_left (by omega)] at ha
      rw [List.getElem?_append_left hlt] at hb
      exact hspaced i a b ha hb
    · rw [List.getElem?_append_left (by omega)] at ha
      rw [heq, List.getElem?_concat_length] at hb
      obtain rfl := Option.some.inj hb
      refine hnew a (by omega) ?_
      rw [← heq, Nat.add_sub_cancel]
      exact ha
    · have hbound := (List.getElem?_eq_some_iff.mp hb).1
      rw [List.length_append, List.length_singleton] at hbound
      omega

end Space2.Base
