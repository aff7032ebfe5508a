import Mathlib.Data.List.Basic
import Mathlib.Data.List.Nodup

/-!
# Keeping first occurrences

Of the members that satisfy a test only the first occurrences stay; all other members stay as
often as they occur.
-/

namespace Space2.Base

variable {α : Type} [DecidableEq α] (once : α → Bool)

/-- `seen` holds the members kept so far. -/
def keepFirstFrom : List α → List α → List α
  | _, [] => []
  | seen, a :: l =>
    if once a = true ∧ a ∈ seen then keepFirstFrom seen l else a :: keepFirstFrom (a :: seen) l

def keepFirst (l : List α) : List α := keepFirstFrom once [] l

variable {once} {seen seen' l : List α} {a : α}

theorem keepFirstFrom_sublist : (keepFirstFrom once seen l).Sublist l := by
  induction l generalizing seen with
  | nil => exact List.Sublist.refl _
  | cons a l ih =>
    rw [keepFirstFrom]
    split_ifs
    · exact (ih).cons a
    · exact (ih).cons_cons a

theorem keepFirst_sublist : (keepFirst once l).Sublist l := keepFirstFrom_sublist

theorem mem_keepFirstFrom : a ∈ l → a ∈ keepFirstFrom once seen l ∨ a ∈ seen := by
  induction l generalizing seen with
  | nil => simp
  | cons b l ih =>
    intro hmem
    rw [keepFirstFrom]
    rcases List.mem_cons.mp hmem with rfl | hrest
    · split_ifs with hseen
      · exact .inr hseen.2
      · exact .inl List.mem_cons_self
    · split_ifs with hseen
      · exact ih hrest
      · rcases @ih (b :: seen) hrest with hkept | hold
        · exact .inl (List.mem_cons_of_mem b hkept)
        · rcases List.mem_cons.mp hold with rfl | hold
          · exact .inl List.mem_cons_self
          · exact .inr hold

@[simp] theorem mem_keepFirst : a ∈ keepFirst once l ↔ a ∈ l := by
  constructor
  · exact fun h => keepFirst_sublist.subset h
  · intro h
    have hkept : a ∈ keepFirstFrom once [] l ∨ a ∈ [] := mem_keepFirstFrom h
    simpa [keepFirst] using hkept

/-- A list that already keeps only first occurrences stays as it is. -/
theorem keepFirstFrom_keepFirstFrom (h : ∀ b ∈ seen', once b = true → b ∈ seen) :
    keepFirstFrom once seen' (keepFirstFrom once seen l) = keepFirstFrom once seen l := by
  induction l generalizing seen seen' with
  | nil => rfl
  | cons b l ih =>
    rw [keepFirstFrom]
    split_ifs with hb
    · exact ih h
    · have hnew : ¬ (once b = true ∧ b ∈ seen') := fun hc => hb ⟨hc.1, h b hc.2 hc.1⟩
      rw [keepFirstFrom, if_neg hnew, ih]
      intro c hc honce
      rcases List.mem_cons.mp hc with rfl | hc
      · exact List.mem_cons_self
      · exact List.mem_cons_of_mem b (h c hc honce)

@[simp] theorem keepFirst_keepFirst :
    keepFirst once (keepFirst once l) = keepFirst once l :=
  keepFirstFrom_keepFirstFrom (by simp)

theorem keepFirstFrom_nodup (hall : ∀ b ∈ l, once b = true) :
    (keepFirstFrom once seen l).Nodup ∧ ∀ b ∈ keepFirstFrom once seen l, b ∉ seen := by
  induction l generalizing seen with
  | nil => exact ⟨List.nodup_nil, fun b hb => by simp [keepFirstFrom] at hb⟩
  | cons b l ih =>
    have hrest : ∀ c ∈ l, once c = true := fun c hc => hall c (List.mem_cons_of_mem b hc)
    rw [keepFirstFrom]
    split_ifs with hseen
    · exact ih hrest
    · obtain ⟨hnodup, hfresh⟩ := @ih (b :: seen) hrest
      have hb : b ∉ seen := fun hmem => hseen ⟨hall b List.mem_cons_self, hmem⟩
      refine ⟨List.nodup_cons.mpr ⟨fun hmem => hfresh b hmem List.mem_cons_self, hnodup⟩, ?_⟩
      intro c hc
      rcases List.mem_cons.mp hc with rfl | hc
      · exact hb
      · exact fun hmem => hfresh c hc (List.mem_cons_of_mem b hmem)

theorem keepFirst_nodup (hall : ∀ b ∈ l, once b = true) : (keepFirst once l).Nodup :=
  (keepFirstFrom_nodup hall).1

theorem keepFirstFrom_of_nodup (hnodup : l.Nodup) (hfresh : ∀ b ∈ l, b ∉ seen) : keepFirstFrom once seen l = l := by
  induction l generalizing seen with
  | nil => rfl
  | cons b l ih =>
    obtain ⟨hb, hl⟩ := List.nodup_cons.mp hnodup
    have hnew : ¬ (once b = true ∧ b ∈ seen) := fun h => hfresh b List.mem_cons_self h.2
    rw [keepFirstFrom, if_neg hnew, ih hl]
    intro c hc hmem
    rcases List.mem_cons.mp hmem with rfl | hmem
    · exact hb hc
    · exact hfresh c (List.mem_cons_of_mem b hc) hmem

theorem keepFirst_map {β : Type} [DecidableEq β] {f : β → α} (hf : Function.Injective f)
    (l : List β) : keepFirst once (l.map f) = (keepFirst (once ∘ f) l).map f := by
  suffices hfrom : ∀ seen, keepFirstFrom once (seen.map f) (l.map f) =
      (keepFirstFrom (once ∘ f) seen l).map f from hfrom []
  induction l with
  | nil => exact fun _ => rfl
  | cons b l ih =>
    intro seen
    have hmem : f b ∈ seen.map f ↔ b ∈ seen := List.mem_map_of_injective hf
    rw [List.map_cons, keepFirstFrom, keepFirstFrom]
    by_cases hseen : (once ∘ f) b = true ∧ b ∈ seen
    · rw [if_pos ⟨hseen.1, hmem.mpr hseen.2⟩, if_pos hseen, ih]
    · rw [if_neg fun h => hseen ⟨h.1, hmem.mp h.2⟩, if_neg hseen, List.map_cons, ← List.map_cons, ih]

theorem keepFirst_of_never (h : ∀ a ∈ l, once a = false) : keepFirst once l = l := by
  suffices hfrom : ∀ seen, keepFirstFrom once seen l = l from hfrom []
  induction l with
  | nil => exact fun _ => rfl
  | cons b l ih =>
    intro seen
    have hb : ¬ (once b = true ∧ b ∈ seen) := by simp [h b List.mem_cons_self]
    rw [keepFirstFrom, if_neg hb, ih (fun a ha => h a (List.mem_cons_of_mem b ha))]

end Space2.Base
