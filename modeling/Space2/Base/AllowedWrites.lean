import Space2.Base.DurableProgram
import Space2.Base.Runs

/-!
# The writes a program makes

`Allows` says of every write of a program that it is admitted in the state it meets. What each
admitted write keeps, every run of such programs keeps. `Keeps` is about programs that stop by
themselves, with a result or with an error, and may break what they keep in between.
-/

namespace Space2.Base.Durable

universe u

section Writes
variable {σ ω : Type*} [Commits σ ω] {A B : σ → ω → Prop}

/-- Each write is admitted in the state that the writes before it leave. -/
abbrev AllWrites (A : σ → ω → Prop) : σ → List ω → Prop := Along Commits.commit A

theorem AllWrites.initial {s : σ} {ws vs : List ω} (h : AllWrites A s vs) (hinitial : ws <+: vs) :
    AllWrites A s ws := by
  obtain ⟨rest, rfl⟩ := hinitial
  exact (Along.append.mp h).1

theorem AllWrites.and {s : σ} {ws : List ω} (h : AllWrites A s ws) (h' : AllWrites B s ws) :
    AllWrites (fun s w => A s w ∧ B s w) s ws := by
  induction ws generalizing s with
  | nil => trivial
  | cons w ws ih => exact ⟨⟨h.1, h'.1⟩, ih h.2 h'.2⟩

end Writes

section Triples
variable {σ ω ε γ : Type*} {α β : Type u} [Commits σ ω] {A : σ → ω → Prop} {P P' : σ → Prop}

/-- From a state in `P` every write is admitted, and a result `a` leaves a state in `Q a`. -/
structure Allows (P : σ → Prop) (p : Program σ ω ε α) (A : σ → ω → Prop) (Q : α → σ → Prop) :
    Prop where
  writes : ∀ s, P s → AllWrites A s (p s).writes
  post : ∀ s, P s → ∀ a, (p s).result = .ok a → Q a (p.final s)

theorem Allows.weaken {p : Program σ ω ε α} {Q Q' : α → σ → Prop} (h : Allows P p A Q)
    (hP : ∀ s, P' s → P s) (hQ : ∀ a s, Q a s → Q' a s) : Allows P' p A Q' :=
  ⟨fun s hs => h.writes s (hP s hs), fun s hs a ha => hQ a _ (h.post s (hP s hs) a ha)⟩

theorem allows_pure {a : α} {Q : α → σ → Prop} (h : ∀ s, P s → Q a s) :
    Allows P (pure a : Program σ ω ε α) A Q := by
  refine ⟨fun _ _ => trivial, fun s hs b hb => ?_⟩
  cases hb
  exact h s hs

theorem allows_query {f : σ → Except ε α} {Q : α → σ → Prop}
    (h : ∀ s, P s → ∀ a, f s = .ok a → Q a s) : Allows P (query f : Program σ ω ε α) A Q :=
  ⟨fun _ _ => trivial, h⟩

theorem allows_write {w : ω} {Q : PUnit.{u+1} → σ → Prop}
    (h : ∀ s, P s → A s w ∧ Q ⟨⟩ (Commits.commit s w)) :
    Allows P (write w : Program σ ω ε PUnit.{u+1}) A Q :=
  ⟨fun s hs => ⟨(h s hs).1, trivial⟩, fun s hs _ _ => (h s hs).2⟩

theorem allows_bind {p : Program σ ω ε α} {f : α → Program σ ω ε β} {R : α → σ → Prop}
    {Q : β → σ → Prop} (hp : Allows P p A R) (hf : ∀ a, Allows (R a) (f a) A Q) :
    Allows P (p >>= f) A Q := by
  refine ⟨fun s hs => ?_, fun s hs b hb => ?_⟩
  · cases hr : (p s).result with
    | error e =>
      rw [bind_writes_error hr]
      exact hp.writes s hs
    | ok a =>
      rw [bind_of_ok hr]
      exact Along.append.mpr ⟨hp.writes s hs, (hf a).writes _ (hp.post s hs a hr)⟩
  · cases hr : (p s).result with
    | error e =>
      rw [bind_writes_error hr] at hb
      cases hb
    | ok a =>
      have hfinal : (p >>= f).final s = (f a).final (p.final s) := by
        simp [Program.final, bind_of_ok hr]
      rw [bind_of_ok hr] at hb
      rw [hfinal]
      exact (hf a).post _ (hp.post s hs a hr) b hb

/-- A triple may be shown from each start state on its own. -/
theorem allows_of_each {p : Program σ ω ε α} {Q : α → σ → Prop}
    (h : ∀ s, P s → Allows (· = s) p A Q) : Allows P p A Q :=
  ⟨fun s hs => (h s hs).writes s rfl, fun s hs => (h s hs).post s rfl⟩

/-- From one state, a query hands its answer in that state to the rest of the program. -/
theorem allows_query_bind {f : σ → Except ε α} {k : α → Program σ ω ε β} {s : σ}
    {Q : β → σ → Prop} (h : ∀ a, f s = .ok a → Allows (· = s) (k a) A Q) :
    Allows (· = s) (query f >>= k) A Q := by
  refine allows_bind (R := fun a t => t = s ∧ f s = .ok a) (allows_query ?_) fun a => ⟨?_, ?_⟩
  · rintro t rfl a ha
    exact ⟨rfl, ha⟩
  · rintro t ⟨rfl, ha⟩
    exact (h a ha).writes t rfl
  · rintro t ⟨rfl, ha⟩
    exact (h a ha).post t rfl

theorem allows_write_bind {w : ω} {k : PUnit.{u+1} → Program σ ω ε β} {s : σ} {Q : β → σ → Prop}
    (hw : A s w) (h : Allows (· = Commits.commit s w) (k ⟨⟩) A Q) :
    Allows (· = s) (write w >>= k) A Q := by
  refine allows_bind (R := fun _ t => t = Commits.commit s w) (allows_write ?_) fun _ => h
  rintro t rfl
  exact ⟨hw, rfl⟩

theorem allows_ite {c : Prop} [Decidable c] {p q : Program σ ω ε α} {Q : α → σ → Prop}
    (hp : c → Allows P p A Q) (hq : ¬ c → Allows P q A Q) :
    Allows P (if c then p else q) A Q := by
  split_ifs with h
  · exact hp h
  · exact hq h

/-- The loop rule, for a body that may be started in every state. -/
theorem allows_forM {l : List γ} {f : γ → Program σ ω ε PUnit.{u+1}}
    (hf : ∀ a ∈ l, Allows (fun _ => True) (f a) A fun _ _ => True) :
    Allows (fun _ => True) (l.forM f) A fun _ _ => True := by
  induction l with
  | nil => exact allows_pure fun _ _ => trivial
  | cons a l ih =>
    exact allows_bind (hf a List.mem_cons_self) fun _ =>
      ih fun b hb => hf b (List.mem_cons_of_mem a hb)

end Triples

section Kept
variable {σ ω ε γ : Type*} {α β : Type u} [Commits σ ω] {I : σ → Prop}

/-- The invariant holds again when the program has stopped, also with an error. -/
def Keeps (I : σ → Prop) (p : Program σ ω ε α) : Prop := ∀ s, I s → I (p.final s)

theorem keeps_pure {a : α} : Keeps I (pure a : Program σ ω ε α) := fun _ hs => hs

theorem keeps_query {f : σ → Except ε α} : Keeps I (query f : Program σ ω ε α) := fun _ hs => hs

theorem keeps_write {w : ω} (h : ∀ s, I s → I (Commits.commit s w)) :
    Keeps I (write w : Program σ ω ε PUnit.{u+1}) := h

theorem bind_final {p : Program σ ω ε α} {f : α → Program σ ω ε β} {s : σ} :
    (∃ e, (p s).result = .error e ∧ (p >>= f).final s = p.final s) ∨
      ∃ a, (p s).result = .ok a ∧ (p >>= f).final s = (f a).final (p.final s) := by
  cases hr : (p s).result with
  | error e => exact .inl ⟨e, rfl, by simp [Program.final, bind_writes_error hr]⟩
  | ok a => exact .inr ⟨a, rfl, by simp [Program.final, bind_of_ok hr]⟩

theorem keeps_bind {p : Program σ ω ε α} {f : α → Program σ ω ε β} (hp : Keeps I p)
    (hf : ∀ a, Keeps I (f a)) : Keeps I (p >>= f) := by
  intro s hs
  obtain ⟨e, -, hfinal⟩ | ⟨a, -, hfinal⟩ := @bind_final _ _ _ _ _ _ p f s
  · exact hfinal ▸ hp s hs
  · exact hfinal ▸ hf a _ (hp s hs)

/-- What comes after a query may rely on the answer. -/
theorem keeps_query_bind {f : σ → Except ε α} {k : α → Program σ ω ε β}
    (h : ∀ s a, I s → f s = .ok a → I ((k a).final s)) : Keeps I (query f >>= k) := by
  intro s hs
  obtain ⟨e, -, hfinal⟩ | ⟨a, ha, hfinal⟩ := @bind_final _ _ _ _ _ _ (query f) k s
  · exact hfinal ▸ hs
  · exact hfinal ▸ h s a hs ha

theorem keeps_ite {c : Prop} [Decidable c] {p q : Program σ ω ε α} (hp : Keeps I p)
    (hq : Keeps I q) : Keeps I (if c then p else q) := by
  split_ifs
  · exact hp
  · exact hq

theorem keeps_forM {l : List γ} {f : γ → Program σ ω ε PUnit.{u+1}}
    (hf : ∀ a ∈ l, Keeps I (f a)) : Keeps I (l.forM f) := by
  induction l with
  | nil => exact keeps_pure
  | cons a l ih =>
    exact keeps_bind (hf a List.mem_cons_self) fun _ => ih fun b hb =>
      hf b (List.mem_cons_of_mem a hb)

end Kept

end Space2.Base.Durable
