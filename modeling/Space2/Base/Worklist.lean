import Mathlib.Logic.Relation
import Space2.Base.Raising

/-!
# Searches with a worklist

From a start the search goes to what is near, through members that pass a test. The test may read
and change a state, and a member is marked when it is taken from the queue, so that it may stand in
the queue more than once. What is found are the members that pass and can be reached through members
that pass. `none` says that the fuel ran out.
-/
namespace Space2.Base
namespace Op

variable {σ α : Type}

def flood [DecidableEq α] (near : α → List α) (test : α → Op σ Bool) :
    Nat → List α → List α → List α → Op σ (Option (List α))
  | 0, _, _, _ => pure none
  | _ + 1, [], _, found => pure (some found)
  | fuel + 1, a :: queue, visited, found =>
    if a ∈ visited then flood near test fuel queue visited found
    else do
      if ← test a then flood near test fuel (queue ++ near a) (a :: visited) (found ++ [a])
      else flood near test fuel queue (a :: visited) found

/-- What can be reached from the start through members that pass. -/
def Reached (near : α → List α) (passes : α → Prop) (start a : α) : Prop :=
  passes start ∧ Relation.ReflTransGen (fun b c => c ∈ near b ∧ passes c) start a

variable {near : α → List α} {passes : α → Prop} {start : α} {queue visited found : List α}

/-- Between two rounds: what was found are the visited members that pass, all of them are reached,
and what is near to them is visited or waits. -/
structure Spread (near : α → List α) (passes : α → Prop) (start : α)
    (queue visited found : List α) : Prop where
  found_iff : ∀ a, a ∈ found ↔ a ∈ visited ∧ passes a
  distinct : found.Nodup
  begun : start ∈ visited ∨ start ∈ queue
  spread : ∀ a ∈ found, ∀ b ∈ near a, b ∈ visited ∨ b ∈ queue
  reached : ∀ a, a ∈ visited ∨ a ∈ queue → passes a → Reached near passes start a

theorem spread_start : Spread near passes start [start] [] [] where
  found_iff := by simp
  distinct := List.nodup_nil
  begun := .inr List.mem_cons_self
  spread := by simp
  reached := by
    intro a ha hpasses
    obtain rfl : a = start := by simpa using ha
    exact ⟨hpasses, .refl⟩

theorem Spread.skip {a : α} (h : Spread near passes start (a :: queue) visited found)
    (ha : a ∈ visited) : Spread near passes start queue visited found where
  found_iff := h.found_iff
  distinct := h.distinct
  begun := by
    rcases h.begun with hstart | hstart
    · exact .inl hstart
    · rcases List.mem_cons.mp hstart with rfl | hstart
      · exact .inl ha
      · exact .inr hstart
  spread := by
    intro b hb c hc
    rcases h.spread b hb c hc with hmem | hmem
    · exact .inl hmem
    · rcases List.mem_cons.mp hmem with rfl | hmem
      · exact .inl ha
      · exact .inr hmem
  reached := fun b hb => h.reached b (hb.imp id (List.mem_cons_of_mem a))

/-- A member leaves the queue and is marked. -/
theorem mem_marked {a b : α} (h : b ∈ visited ∨ b ∈ a :: queue) :
    b ∈ a :: visited ∨ b ∈ queue := by
  rcases h with hmem | hmem
  · exact .inl (List.mem_cons_of_mem a hmem)
  · rcases List.mem_cons.mp hmem with rfl | hmem
    · exact .inl List.mem_cons_self
    · exact .inr hmem

theorem mem_unmarked {a b : α} (h : b ∈ a :: visited ∨ b ∈ queue) :
    b ∈ visited ∨ b ∈ a :: queue := by
  rcases h with hmem | hmem
  · rcases List.mem_cons.mp hmem with rfl | hmem
    · exact .inr List.mem_cons_self
    · exact .inl hmem
  · exact .inr (List.mem_cons_of_mem a hmem)

theorem Spread.refuse {a : α} (h : Spread near passes start (a :: queue) visited found)
    (ha : ¬ passes a) : Spread near passes start queue (a :: visited) found where
  found_iff := by
    intro b
    rw [h.found_iff b, List.mem_cons]
    constructor
    · exact fun hb => ⟨.inr hb.1, hb.2⟩
    · rintro ⟨rfl | hb, hpasses⟩
      · exact absurd hpasses ha
      · exact ⟨hb, hpasses⟩
  distinct := h.distinct
  begun := mem_marked h.begun
  spread := fun b hb c hc => mem_marked (h.spread b hb c hc)
  reached := fun b hb => h.reached b (mem_unmarked hb)

theorem Spread.take {a : α} (h : Spread near passes start (a :: queue) visited found)
    (hfresh : a ∉ visited) (ha : passes a) :
    Spread near passes start (queue ++ near a) (a :: visited) (found ++ [a]) where
  found_iff := by
    intro b
    rw [List.mem_append, List.mem_singleton, h.found_iff b, List.mem_cons]
    constructor
    · rintro (hb | rfl)
      · exact ⟨.inr hb.1, hb.2⟩
      · exact ⟨.inl rfl, ha⟩
    · rintro ⟨rfl | hb, hpasses⟩
      · exact .inr rfl
      · exact .inl ⟨hb, hpasses⟩
  distinct := by
    refine h.distinct.append (List.nodup_singleton a) ?_
    simpa using fun hmem : a ∈ found => hfresh ((h.found_iff a).mp hmem).1
  begun := (mem_marked h.begun).imp id (List.mem_append_left _)
  spread := by
    intro b hb c hc
    rcases List.mem_append.mp hb with hb | hb
    · exact (mem_marked (h.spread b hb c hc)).imp id (List.mem_append_left _)
    · obtain rfl := List.mem_singleton.mp hb
      exact .inr (List.mem_append_right _ hc)
  reached := by
    intro b hb hpasses
    have hreached : Reached near passes start a :=
      h.reached a (.inr List.mem_cons_self) ha
    rcases hb with hb | hb
    · exact h.reached b (mem_unmarked (.inl hb)) hpasses
    · rcases List.mem_append.mp hb with hb | hb
      · exact h.reached b (mem_unmarked (.inr hb)) hpasses
      · exact ⟨hreached.1, hreached.2.tail ⟨hb, hpasses⟩⟩

/-- When the queue is empty, what was found is what is reached. -/
theorem Spread.found_eq (h : Spread near passes start [] visited found) (a : α) :
    a ∈ found ↔ Reached near passes start a := by
  constructor
  · intro ha
    obtain ⟨hvisited, hpasses⟩ := (h.found_iff a).mp ha
    exact h.reached a (.inl hvisited) hpasses
  · rintro ⟨hstart, hsteps⟩
    induction hsteps with
    | refl => exact (h.found_iff start).mpr ⟨h.begun.resolve_right (by simp), hstart⟩
    | tail _ hstep ih =>
      have hvisited := (h.spread _ ih _ hstep.1).resolve_right (by simp)
      exact (h.found_iff _).mpr ⟨hvisited, hstep.2⟩

variable [DecidableEq α]

/-- The members of a finite carrier that are still to be visited. -/
def unvisited (carrier : Finset α) (visited : List α) : Finset α :=
  carrier.filter (· ∉ visited)

theorem mem_unvisited {carrier : Finset α} {a : α} :
    a ∈ unvisited carrier visited ↔ a ∈ carrier ∧ a ∉ visited := by
  rw [unvisited, Finset.mem_filter]

theorem card_unvisited_le (carrier : Finset α) (visited : List α) :
    (unvisited carrier visited).card ≤ carrier.card := Finset.card_filter_le _ _

theorem unvisited_cons_le (carrier : Finset α) (a : α) (visited : List α) :
    (unvisited carrier (a :: visited)).card ≤ (unvisited carrier visited).card := by
  refine Finset.card_le_card fun b hb => ?_
  simp only [unvisited, Finset.mem_filter, List.mem_cons, not_or] at hb ⊢
  exact ⟨hb.1, hb.2.2⟩

theorem unvisited_cons_lt {carrier : Finset α} {a : α} {visited : List α} (ha : a ∈ carrier)
    (hfresh : a ∉ visited) :
    (unvisited carrier (a :: visited)).card < (unvisited carrier visited).card := by
  refine Finset.card_lt_card (Finset.ssubset_iff.mpr ⟨a, by simp [unvisited], fun b hb => ?_⟩)
  rcases Finset.mem_insert.mp hb with rfl | hb
  · simp [unvisited, ha, hfresh]
  · simp only [unvisited, Finset.mem_filter, List.mem_cons, not_or] at hb ⊢
    exact ⟨hb.1, hb.2.2⟩

/-- Members that are marked together leave the unvisited ones. -/
theorem card_unvisited_append {carrier : Finset α} {fresh : List α} (hnodup : fresh.Nodup)
    (hfresh : ∀ a ∈ fresh, a ∈ carrier ∧ a ∉ visited) :
    fresh.length + (unvisited carrier (visited ++ fresh)).card ≤
      (unvisited carrier visited).card := by
  have hdisjoint : Disjoint fresh.toFinset (unvisited carrier (visited ++ fresh)) := by
    rw [Finset.disjoint_left]
    intro a ha hmem
    exact (mem_unvisited.mp hmem).2 (List.mem_append_right _ (List.mem_toFinset.mp ha))
  have hsubset : fresh.toFinset ∪ unvisited carrier (visited ++ fresh) ⊆
      unvisited carrier visited := by
    intro a ha
    rw [mem_unvisited]
    rcases Finset.mem_union.mp ha with hmem | hmem
    · exact hfresh a (List.mem_toFinset.mp hmem)
    · obtain ⟨hcarrier, hnew⟩ := mem_unvisited.mp hmem
      exact ⟨hcarrier, fun hold => hnew (List.mem_append_left _ hold)⟩
  have hcard := Finset.card_le_card hsubset
  rwa [Finset.card_union_of_disjoint hdisjoint, List.toFinset_card_of_nodup hnodup] at hcard

variable {I E : σ → Prop} {test : α → Op σ Bool} {carrier : Finset α} {degree : Nat}

/-- A search through finitely many members ends with what is reached. -/
theorem ensures_flood
    (htest : ∀ a, Ensures I (test a) (fun passed s => I s ∧ (passed = true ↔ passes a)) E)
    (hcarrier : ∀ a, passes a → a ∈ carrier) (hnear : ∀ a, (near a).length ≤ degree) {fuel : Nat}
    (hfuel : queue.length + degree * (unvisited carrier visited).card < fuel)
    (h : Spread near passes start queue visited found) :
    Ensures I (flood near test fuel queue visited found)
      (fun answer s => I s ∧ ∃ all, answer = some all ∧ all.Nodup ∧
        ∀ a, a ∈ all ↔ Reached near passes start a) E := by
  induction fuel generalizing queue visited found with
  | zero => omega
  | succ fuel ih =>
    cases queue with
    | nil => exact ensures_pure fun s hs => ⟨hs, found, rfl, h.distinct, h.found_eq⟩
    | cons a queue =>
      rw [List.length_cons] at hfuel
      unfold flood
      split_ifs with hvisited
      · exact ih (by omega) (h.skip hvisited)
      · refine ensures_bind (htest a) fun passed => ?_
        cases passed with
        | false =>
          refine (ensures_given fun hpasses => ih ?_ (h.refuse (by simpa using hpasses))).weaken
            (fun s hs => hs) (fun _ _ hs => hs) (fun _ hs => hs)
          have hle := Nat.mul_le_mul_left degree (unvisited_cons_le carrier a visited)
          omega
        | true =>
          refine (ensures_given fun hpasses => ih ?_
            (h.take hvisited (hpasses.mp rfl))).weaken
            (fun s hs => hs) (fun _ _ hs => hs) (fun _ hs => hs)
          have hlt := unvisited_cons_lt (hcarrier a (hpasses.mp rfl)) hvisited
          have hle := Nat.mul_le_mul_left degree (Nat.succ_le_of_lt hlt)
          rw [Nat.mul_succ] at hle
          have hlength := hnear a
          rw [List.length_append]
          omega

end Op
end Space2.Base
