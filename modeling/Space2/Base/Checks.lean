import Mathlib

/-!
# Computations that may fail

`ensure` is an assertion with a message. The lemmas read a successful run backwards: a sequence
succeeds when its parts do, and a loop of checks succeeds when every member passes.
-/

namespace Space2.Base

variable {ε α β γ : Type}

/-- Membership of a text in a list is decided by comparing texts. -/
instance lawfulBEqChars : LawfulBEq (List Char) := inferInstance

def ensure (c : Prop) [Decidable c] (message : ε) : Except ε Unit :=
  if c then .ok () else .error message

@[simp] theorem ensure_eq_ok {c : Prop} [Decidable c] {message : ε} {u : Unit} :
    ensure c message = .ok u ↔ c := by
  unfold ensure
  by_cases h : c <;> simp [h]

theorem ensure_eq_error {c : Prop} [Decidable c] {message e : ε} :
    ensure c message = .error e ↔ ¬ c ∧ message = e := by
  unfold ensure
  by_cases h : c <;> simp [h]

@[simp] theorem bind_eq_ok {x : Except ε α} {f : α → Except ε β} {b : β} :
    (x >>= f) = .ok b ↔ ∃ a, x = .ok a ∧ f a = .ok b := by
  cases x with
  | error e => simp [bind, Except.bind]
  | ok a => simp [bind, Except.bind]

@[simp] theorem pure_eq_ok {a b : α} : (pure a : Except ε α) = .ok b ↔ a = b := by
  simp [pure, Except.pure]

@[simp] theorem throw_eq_ok {e : ε} {b : α} : (throw e : Except ε α) = .ok b ↔ False := by
  simp [throw, throwThe, MonadExceptOf.throw]

@[simp] theorem map_eq_ok {x : Except ε α} {f : α → β} {b : β} :
    (f <$> x) = .ok b ↔ ∃ a, x = .ok a ∧ f a = b := by
  cases x with
  | error e => simp [Functor.map, Except.map]
  | ok a => simp [Functor.map, Except.map]

@[simp] theorem mapError_eq_ok {δ : Type} {x : Except ε α} {f : ε → δ} {a : α} :
    x.mapError f = .ok a ↔ x = .ok a := by
  cases x <;> simp [Except.mapError]

theorem toOption_eq_some {x : Except ε α} {a : α} : x.toOption = some a ↔ x = .ok a := by
  cases x <;> simp [Except.toOption]

theorem toOption_isSome {x : Except ε α} : x.toOption.isSome = true ↔ ∃ a, x = .ok a := by
  cases x <;> simp [Except.toOption]

theorem forM_eq_ok {l : List α} {f : α → Except ε Unit} :
    l.forM f = .ok () ↔ ∀ a ∈ l, f a = .ok () := by
  induction l with
  | nil => exact ⟨fun _ _ ha => absurd ha List.not_mem_nil, fun _ => rfl⟩
  | cons a l ih =>
    change (f a >>= fun _ => l.forM f) = .ok () ↔ _
    rw [bind_eq_ok, List.forall_mem_cons, ← ih]
    constructor
    · rintro ⟨⟨⟩, ha, hl⟩
      exact ⟨ha, hl⟩
    · rintro ⟨ha, hl⟩
      exact ⟨⟨⟩, ha, hl⟩

theorem mapM_eq_ok {l : List α} {f : α → Except ε β} {r : List β} :
    l.mapM f = .ok r ↔ List.Forall₂ (fun a b => f a = .ok b) l r := by
  induction l generalizing r with
  | nil => rw [List.mapM_nil, pure_eq_ok, List.forall₂_nil_left_iff, eq_comm]
  | cons a l ih =>
    simp only [List.mapM_cons, bind_eq_ok, pure_eq_ok, List.forall₂_cons_left_iff, ih]
    constructor
    · rintro ⟨b, hb, bs, hbs, rfl⟩
      exact ⟨b, bs, hb, hbs, rfl⟩
    · rintro ⟨b, bs, hb, hbs, rfl⟩
      exact ⟨b, hb, bs, hbs, rfl⟩

theorem mapM_total {l : List α} {f : α → Except ε β} (h : ∀ a ∈ l, ∃ b, f a = .ok b) :
    ∃ r, l.mapM f = .ok r := by
  induction l with
  | nil => exact ⟨[], rfl⟩
  | cons a l ih =>
    obtain ⟨b, hb⟩ := h a List.mem_cons_self
    obtain ⟨r, hr⟩ := ih fun a ha => h a (List.mem_cons_of_mem _ ha)
    exact ⟨b :: r, by rw [List.mapM_cons, hb, hr]; rfl⟩

theorem forall₂_members {R : α → β → Prop} {l : List α} {r : List β} (h : List.Forall₂ R l r) :
    (∀ a ∈ l, ∃ b ∈ r, R a b) ∧ ∀ b ∈ r, ∃ a ∈ l, R a b := by
  induction h with
  | nil => simp
  | cons hfirst _ ih =>
    simp only [List.mem_cons, forall_eq_or_imp, exists_eq_or_imp]
    exact ⟨⟨.inl hfirst, fun a ha => .inr (ih.1 a ha)⟩, ⟨.inl hfirst, fun b hb => .inr (ih.2 b hb)⟩⟩

theorem forall₂_pairwise {R : α → β → Prop} {P : α → α → Prop} {Q : β → β → Prop}
    (h : ∀ a b c d, P a b → R a c → R b d → Q c d) {l : List α} {r : List β}
    (hr : List.Forall₂ R l r) (hl : l.Pairwise P) : r.Pairwise Q := by
  induction hr with
  | nil => exact List.Pairwise.nil
  | cons hfirst hrest ih =>
    obtain ⟨hhead, htail⟩ := List.pairwise_cons.mp hl
    refine List.pairwise_cons.mpr ⟨fun d hd => ?_, ih htail⟩
    obtain ⟨b, hb, hR⟩ := (forall₂_members hrest).2 d hd
    exact h _ b _ d (hhead b hb) hfirst hR

/-- Some member passes a test that is run on every one. -/
theorem mapM_any {l : List α} {f : α → Except ε Bool} {r : List Bool} {P : α → Prop}
    (h : ∀ a ∈ l, ∀ b, f a = .ok b → (b = true ↔ P a)) (hr : l.mapM f = .ok r) :
    r.any id = true ↔ ∃ a ∈ l, P a := by
  obtain ⟨hleft, hright⟩ := forall₂_members (mapM_eq_ok.mp hr)
  rw [List.any_eq_true]
  constructor
  · rintro ⟨b, hb, htrue⟩
    obtain ⟨a, ha, hok⟩ := hright b hb
    exact ⟨a, ha, (h a ha b hok).mp htrue⟩
  · rintro ⟨a, ha, hP⟩
    obtain ⟨b, hb, hok⟩ := hleft a ha
    exact ⟨b, hb, (h a ha b hok).mpr hP⟩

/-- The lists a loop collects hold what its members yield. -/
theorem flatten_members {l : List α} {f : α → Except ε (List β)} {r : List (List β)}
    (h : l.mapM f = .ok r) : (∀ a ∈ l, ∃ own, f a = .ok own ∧ ∀ b ∈ own, b ∈ r.flatten) ∧
      ∀ b ∈ r.flatten, ∃ a ∈ l, ∃ own, f a = .ok own ∧ b ∈ own := by
  obtain ⟨hleft, hright⟩ := forall₂_members (mapM_eq_ok.mp h)
  constructor
  · intro a ha
    obtain ⟨own, hown, hok⟩ := hleft a ha
    exact ⟨own, hok, fun b hb => List.mem_flatten.mpr ⟨own, hown, hb⟩⟩
  · intro b hb
    obtain ⟨own, hown, hmem⟩ := List.mem_flatten.mp hb
    obtain ⟨a, ha, hok⟩ := hright own hown
    exact ⟨a, ha, own, hok, hmem⟩

/-- The members that pass a test which may fail. -/
def selectM (test : α → Except ε Bool) : List α → Except ε (List α)
  | [] => pure []
  | a :: l => do
    let passed ← test a
    let rest ← selectM test l
    pure (if passed then a :: rest else rest)

/-- The members kept are those the test passes. -/
theorem mem_selectM {test : α → Except ε Bool} {P : α → Prop} {l r : List α}
    (h : ∀ a ∈ l, ∀ b, test a = .ok b → (b = true ↔ P a)) (hr : selectM test l = .ok r) (a : α) :
    a ∈ r ↔ a ∈ l ∧ P a := by
  induction l generalizing r with
  | nil =>
    obtain rfl := pure_eq_ok.mp hr
    simp
  | cons c l ih =>
    simp only [selectM, bind_eq_ok, pure_eq_ok] at hr
    obtain ⟨passed, hpassed, rest, hrest, rfl⟩ := hr
    have hc := h c List.mem_cons_self passed hpassed
    have hl := ih (fun b hb => h b (List.mem_cons_of_mem c hb)) hrest
    rw [List.mem_cons, or_and_right, ← hl]
    split_ifs with htrue
    · rw [List.mem_cons]
      refine or_congr_left ⟨?_, And.left⟩
      rintro rfl
      exact ⟨rfl, hc.mp htrue⟩
    · refine ⟨.inr, ?_⟩
      rintro (⟨rfl, hP⟩ | ha)
      · exact absurd (hc.mpr hP) htrue
      · exact ha

/-- A loop that records the key of each member and refuses a recorded one passes only on lists
whose keys are distinct. -/
theorem foldlM_seen {κ : Type} {key : α → κ} {P : α → Prop} {step : List κ → α → Except ε (List κ)}
    (h : ∀ seen a seen', step seen a = .ok seen' → seen' = key a :: seen ∧ key a ∉ seen ∧ P a)
    {l : List α} {seen seen' : List κ} (hl : l.foldlM step seen = .ok seen') :
    (l.map key).Nodup ∧ ∀ a ∈ l, key a ∉ seen ∧ P a := by
  induction l generalizing seen with
  | nil => exact ⟨List.nodup_nil, fun _ ha => absurd ha List.not_mem_nil⟩
  | cons a l ih =>
    rw [List.foldlM_cons, bind_eq_ok] at hl
    obtain ⟨next, hstep, hrest⟩ := hl
    obtain ⟨rfl, hnew, ha⟩ := h _ _ _ hstep
    obtain ⟨hnodup, hall⟩ := ih hrest
    refine ⟨List.nodup_cons.mpr ⟨?_, hnodup⟩, List.forall_mem_cons.mpr ⟨⟨hnew, ha⟩, ?_⟩⟩
    · intro hmem
      obtain ⟨b, hb, heq⟩ := List.mem_map.mp hmem
      exact (hall b hb).1 (heq ▸ List.mem_cons_self)
    · exact fun b hb => ⟨fun hmem => (hall b hb).1 (List.mem_cons_of_mem _ hmem), (hall b hb).2⟩

/-- A loop that records the key of each member records them all. -/
theorem foldlM_collects {κ : Type} {key : α → κ} {step : List κ → α → Except ε (List κ)}
    (h : ∀ seen a seen', step seen a = .ok seen' → seen' = key a :: seen)
    {l : List α} {seen seen' : List κ} (hl : l.foldlM step seen = .ok seen') :
    ∀ k, k ∈ seen' ↔ k ∈ l.map key ∨ k ∈ seen := by
  induction l generalizing seen with
  | nil =>
    obtain rfl := pure_eq_ok.mp hl
    simp
  | cons a l ih =>
    rw [List.foldlM_cons, bind_eq_ok] at hl
    obtain ⟨next, hstep, hrest⟩ := hl
    obtain rfl := h _ _ _ hstep
    intro k
    rw [ih hrest, List.map_cons, List.mem_cons, List.mem_cons]
    tauto

end Space2.Base
