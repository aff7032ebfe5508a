import Mathlib.Logic.Relation
import Mathlib.Tactic.SplitIfs

/-!
# Programs that make atomic durable writes

A program reads a durable state, makes a finite list of atomic writes in order and ends with a
result or an error. A crash may fall between any two writes, so the states a run can leave behind
are those reached by a prefix of its writes. `Spec` is the corresponding triple: one predicate for
every state a crash can leave, one for the result. The rules below follow the program text.
-/

namespace Space2.Base.Durable
open Relation

universe u

/-- How one atomic write changes the durable state. -/
class Commits (σ : Type*) (ω : outParam Type*) where
  commit : σ → ω → σ

structure Trace (ω ε α : Type*) where
  writes : List ω
  result : Except ε α

def Program (σ ω ε α : Type*) := σ → Trace ω ε α

section Semantics
variable {σ ω ε : Type*} {α β : Type u}

/-- A computation that only reads the durable state. -/
def query (f : σ → Except ε α) : Program σ ω ε α := fun s => ⟨[], f s⟩

def write (w : ω) : Program σ ω ε PUnit := fun _ => ⟨[w], .ok ⟨⟩⟩

/-- Rewording an error leaves the writes alone. -/
def withContext (context : ε → ε) (p : Program σ ω ε α) : Program σ ω ε α := fun s =>
  ⟨(p s).writes, (p s).result.mapError context⟩

theorem withContext_ok {context : ε → ε} {p : Program σ ω ε α} {s : σ} {a : α} :
    (withContext context p s).result = .ok a ↔ (p s).result = .ok a := by
  unfold withContext
  cases (p s).result <;> simp [Except.mapError]

variable [Commits σ ω]

def commitAll (s : σ) (ws : List ω) : σ := ws.foldl Commits.commit s

@[simp] theorem commitAll_nil (s : σ) : commitAll s ([] : List ω) = s := rfl

@[simp] theorem commitAll_cons (s : σ) (w : ω) (ws : List ω) :
    commitAll s (w :: ws) = commitAll (Commits.commit s w) ws := rfl

@[simp] theorem commitAll_append (s : σ) (ws vs : List ω) :
    commitAll s (ws ++ vs) = commitAll (commitAll s ws) vs := List.foldl_append ..

namespace Program

def final (p : Program σ ω ε α) (s : σ) : σ := commitAll s (p s).writes

/-- The crash falls after some prefix of the writes, possibly after all of them. -/
def Crashes (p : Program σ ω ε α) (s s' : σ) : Prop :=
  ∃ ws, ws <+: (p s).writes ∧ s' = commitAll s ws

theorem crashes_refl (p : Program σ ω ε α) (s : σ) : p.Crashes s s :=
  ⟨[], List.nil_prefix, rfl⟩

theorem crashes_final (p : Program σ ω ε α) (s : σ) : p.Crashes s (p.final s) :=
  ⟨_, List.prefix_rfl, rfl⟩

end Program

def next (p : Program σ ω ε α) (f : α → Program σ ω ε β) : Program σ ω ε β := fun s =>
  match (p s).result with
  | .error e => ⟨(p s).writes, .error e⟩
  | .ok a => ⟨(p s).writes ++ (f a (p.final s)).writes, (f a (p.final s)).result⟩

instance : Monad (Program σ ω ε) where
  pure a := fun _ => ⟨[], .ok a⟩
  bind := next

theorem bind_writes_error {p : Program σ ω ε α} {f : α → Program σ ω ε β} {s : σ} {e : ε}
    (h : (p s).result = .error e) : (p >>= f) s = ⟨(p s).writes, .error e⟩ := by
  change next p f s = _
  simp only [next, h]

theorem query_bind_error {f : σ → Except ε α} {k : α → Program σ ω ε β} {s : σ} {e : ε}
    (h : f s = .error e) : (query f >>= k) s = ⟨[], .error e⟩ :=
  bind_writes_error h

theorem bind_of_ok {p : Program σ ω ε α} {f : α → Program σ ω ε β} {s : σ} {a : α}
    (h : (p s).result = .ok a) :
    (p >>= f) s = ⟨(p s).writes ++ (f a (p.final s)).writes, (f a (p.final s)).result⟩ := by
  change next p f s = _
  simp only [next, h]

/-- A query writes nothing itself. -/
theorem query_bind_idle {f : σ → Except ε α} {k : α → Program σ ω ε β} {s : σ}
    (h : ∀ a, f s = .ok a → (k a s).writes = []) : ((query f >>= k) s).writes = [] := by
  cases hf : f s with
  | error e => rw [query_bind_error hf]
  | ok a =>
    have hbind : (query f >>= k) s = ⟨[] ++ (k a s).writes, (k a s).result⟩ := bind_of_ok hf
    rw [hbind, List.nil_append, h a hf]

end Semantics

section Triples
variable {σ ω ε γ : Type*} {α β : Type u} [Commits σ ω]

/-- From a state in `P`, every crash leaves a state in `I`, and a result `a` leaves one in `Q a`. -/
structure Spec (P : σ → Prop) (p : Program σ ω ε α) (I : σ → Prop) (Q : α → σ → Prop) : Prop where
  crash : ∀ s, P s → ∀ s', p.Crashes s s' → I s'
  post : ∀ s, P s → ∀ a, (p s).result = .ok a → Q a (p.final s)

variable {P P' I I' : σ → Prop}

theorem Spec.weaken {p : Program σ ω ε α} {Q Q' : α → σ → Prop} (h : Spec P p I Q)
    (hP : ∀ s, P' s → P s) (hI : ∀ s, I s → I' s) (hQ : ∀ a s, Q a s → Q' a s) :
    Spec P' p I' Q' :=
  ⟨fun s hs s' hc => hI s' (h.crash s (hP s hs) s' hc),
    fun s hs a ha => hQ a _ (h.post s (hP s hs) a ha)⟩

theorem spec_pure {a : α} {Q : α → σ → Prop} (h : ∀ s, P s → I s ∧ Q a s) :
    Spec P (pure a : Program σ ω ε α) I Q := by
  refine ⟨?_, ?_⟩
  · rintro s hs s' ⟨ws, hw, rfl⟩
    have hnil : ws = [] := List.prefix_nil.mp hw
    simpa [hnil] using (h s hs).1
  · intro s hs b hb
    cases hb
    exact (h s hs).2

theorem spec_query {f : σ → Except ε α} {Q : α → σ → Prop}
    (h : ∀ s, P s → I s ∧ ∀ a, f s = .ok a → Q a s) :
    Spec P (query f : Program σ ω ε α) I Q := by
  refine ⟨?_, fun s hs a ha => (h s hs).2 a ha⟩
  rintro s hs s' ⟨ws, hw, rfl⟩
  have hnil : ws = [] := List.prefix_nil.mp hw
  simpa [hnil] using (h s hs).1

theorem spec_write {w : ω} {Q : PUnit.{u+1} → σ → Prop}
    (h : ∀ s, P s → I s ∧ I (Commits.commit s w) ∧ Q ⟨⟩ (Commits.commit s w)) :
    Spec P (write w : Program σ ω ε PUnit.{u+1}) I Q := by
  refine ⟨?_, fun s hs _ _ => (h s hs).2.2⟩
  rintro s hs s' ⟨ws, hw, rfl⟩
  obtain ⟨hbefore, hafter, -⟩ := h s hs
  cases ws with
  | nil => exact hbefore
  | cons v vs =>
    obtain ⟨rfl, hvs⟩ := List.cons_prefix_cons.mp hw
    have hnil : vs = [] := List.prefix_nil.mp hvs
    simpa [hnil] using hafter

/-- A crash of a sequence falls in its first part, or after it in the second. -/
theorem crashes_bind {p : Program σ ω ε α} {f : α → Program σ ω ε β} {s s' : σ}
    (h : (p >>= f).Crashes s s') :
    p.Crashes s s' ∨ ∃ a, (p s).result = .ok a ∧ (f a).Crashes (p.final s) s' := by
  obtain ⟨ws, hw, rfl⟩ := h
  cases hr : (p s).result with
  | error e =>
    rw [bind_writes_error hr] at hw
    exact .inl ⟨ws, hw, rfl⟩
  | ok a =>
    rw [bind_of_ok hr] at hw
    rcases List.prefix_or_prefix_of_prefix hw (List.prefix_append _ _) with hfirst | ⟨vs, rfl⟩
    · exact .inl ⟨ws, hfirst, rfl⟩
    · have hsecond : vs <+: (f a (p.final s)).writes := (List.prefix_append_right_inj _).mp hw
      exact .inr ⟨a, rfl, vs, hsecond, by simp [Program.final]⟩

theorem spec_bind {p : Program σ ω ε α} {f : α → Program σ ω ε β} {R : α → σ → Prop}
    {Q : β → σ → Prop} (hp : Spec P p I R) (hf : ∀ a, Spec (R a) (f a) I Q) :
    Spec P (p >>= f) I Q := by
  refine ⟨?_, ?_⟩
  · intro s hs s' hc
    rcases crashes_bind hc with hfirst | ⟨a, ha, hsecond⟩
    · exact hp.crash s hs s' hfirst
    · exact (hf a).crash _ (hp.post s hs a ha) s' hsecond
  · intro s hs b hb
    cases hr : (p s).result with
    | error e => rw [bind_writes_error hr] at hb; cases hb
    | ok a =>
      have hfinal : (p >>= f).final s = (f a).final (p.final s) := by
        simp [Program.final, bind_of_ok hr]
      rw [bind_of_ok hr] at hb
      rw [hfinal]
      exact (hf a).post _ (hp.post s hs a hr) b hb

/-- From one state, a query hands its answer in that state to the rest of the program. -/
theorem spec_query_bind {f : σ → Except ε α} {k : α → Program σ ω ε β} {s : σ}
    {Q : β → σ → Prop} (hI : I s)
    (h : ∀ a, f s = .ok a → Spec (· = s) (k a) I Q) : Spec (· = s) (query f >>= k) I Q := by
  refine spec_bind (R := fun a s' => s' = s ∧ f s = .ok a) (spec_query ?_) fun a => ⟨?_, ?_⟩
  · rintro s' rfl
    exact ⟨hI, fun a ha => ⟨rfl, ha⟩⟩
  · rintro s' ⟨rfl, ha⟩
    exact (h a ha).crash s' rfl
  · rintro s' ⟨rfl, ha⟩
    exact (h a ha).post s' rfl

theorem spec_write_bind {w : ω} {k : PUnit.{u+1} → Program σ ω ε β} {s : σ} {Q : β → σ → Prop}
    (hI : I s) (h : Spec (· = Commits.commit s w) (k ⟨⟩) I Q) :
    Spec (· = s) (write w >>= k) I Q := by
  refine spec_bind (R := fun _ s' => s' = Commits.commit s w) (spec_write ?_) fun _ => h
  rintro s' rfl
  exact ⟨hI, h.crash _ rfl _ (Program.crashes_refl _ _), rfl⟩

theorem spec_pure_at {a : α} {s : σ} {Q : α → σ → Prop} (hI : I s) (hQ : Q a s) :
    Spec (· = s) (pure a : Program σ ω ε α) I Q :=
  spec_pure fun _ hs => hs ▸ ⟨hI, hQ⟩

theorem spec_query_at {f : σ → Except ε α} {s : σ} {Q : α → σ → Prop} (hI : I s)
    (h : ∀ a, f s = .ok a → Q a s) : Spec (· = s) (query f : Program σ ω ε α) I Q :=
  spec_query fun _ hs => hs ▸ ⟨hI, h⟩

/-- A triple may be shown from each start state on its own. -/
theorem spec_of_each {p : Program σ ω ε α} {Q : α → σ → Prop}
    (h : ∀ s, P s → Spec (· = s) p I Q) : Spec P p I Q :=
  ⟨fun s hs => (h s hs).crash s rfl, fun s hs => (h s hs).post s rfl⟩

theorem spec_context {context : ε → ε} {p : Program σ ω ε α} {Q : α → σ → Prop}
    (h : Spec P p I Q) : Spec P (withContext context p) I Q :=
  ⟨h.crash, fun s hs a ha => h.post s hs a (withContext_ok.mp ha)⟩

theorem spec_ite {c : Prop} [Decidable c] {p q : Program σ ω ε α} {Q : α → σ → Prop}
    (hp : c → Spec P p I Q) (hq : ¬ c → Spec P q I Q) : Spec P (if c then p else q) I Q := by
  split_ifs with h
  · exact hp h
  · exact hq h

/-- The loop rule: `J done` holds once the members in `done` have been processed. -/
theorem spec_forM {l : List γ} {f : γ → Program σ ω ε PUnit.{u+1}} {J : List γ → σ → Prop}
    (hI : ∀ done s, J done s → I s)
    (hf : ∀ done a rest, l = done ++ a :: rest →
      Spec (J done) (f a) I (fun _ => J (done ++ [a]))) :
    Spec (J []) (l.forM f) I (fun _ => J l) := by
  suffices h : ∀ rest done, l = done ++ rest → Spec (J done) (rest.forM f) I (fun _ => J l) from
    h l [] rfl
  intro rest
  induction rest with
  | nil =>
    intro done hl
    rw [List.append_nil] at hl
    subst hl
    exact spec_pure fun s hs => ⟨hI _ s hs, hs⟩
  | cons a rest ih =>
    intro done hl
    exact spec_bind (hf done a rest hl) fun _ => ih (done ++ [a]) (by simpa using hl)

end Triples

section Completion
variable {σ ω ε γ : Type*} {α β : Type u} [Commits σ ω]

/-- The program ends from this state without an error, and its result and the state it leaves
satisfy `Q`. -/
def Ends (p : Program σ ω ε α) (s : σ) (Q : α → σ → Prop) : Prop :=
  ∃ a, (p s).result = .ok a ∧ Q a (p.final s)

variable {s : σ}

theorem Ends.mono {p : Program σ ω ε α} {Q Q' : α → σ → Prop} (h : Ends p s Q)
    (hQ : ∀ a t, Q a t → Q' a t) : Ends p s Q' := by
  obtain ⟨a, ha, hQa⟩ := h
  exact ⟨a, ha, hQ a _ hQa⟩

/-- What a triple says of the result holds of a program that ends. -/
theorem Ends.and_spec {p : Program σ ω ε α} {I : σ → Prop} {Q R : α → σ → Prop} (h : Ends p s Q)
    (hspec : Spec (· = s) p I R) : Ends p s (fun a t => Q a t ∧ R a t) := by
  obtain ⟨a, ha, hQa⟩ := h
  exact ⟨a, ha, hQa, hspec.post s rfl a ha⟩

theorem Ends.final {p : Program σ ω ε α} {Q : α → σ → Prop} (h : Ends p s Q) :
    ∃ a, Q a (p.final s) := by
  obtain ⟨a, -, hQ⟩ := h
  exact ⟨a, hQ⟩

theorem Ends.exact {p : Program σ ω ε α} {Q : α → σ → Prop} (h : Ends p s Q) :
    Ends p s fun _ t => t = p.final s := by
  obtain ⟨a, ha, -⟩ := h
  exact ⟨a, ha, rfl⟩

theorem ends_pure {a : α} {Q : α → σ → Prop} (h : Q a s) :
    Ends (pure a : Program σ ω ε α) s Q := ⟨a, rfl, h⟩

theorem ends_query {f : σ → Except ε α} {a : α} {Q : α → σ → Prop} (hf : f s = .ok a)
    (h : Q a s) : Ends (query f : Program σ ω ε α) s Q := ⟨a, hf, h⟩

theorem ends_write {w : ω} {Q : PUnit.{u+1} → σ → Prop} (h : Q ⟨⟩ (Commits.commit s w)) :
    Ends (write w : Program σ ω ε PUnit.{u+1}) s Q := ⟨⟨⟩, rfl, h⟩

theorem ends_bind {p : Program σ ω ε α} {f : α → Program σ ω ε β} {Q : β → σ → Prop}
    (h : Ends p s fun a t => Ends (f a) t Q) : Ends (p >>= f) s Q := by
  obtain ⟨a, ha, b, hb, hQ⟩ := h
  have hfinal : (p >>= f).final s = (f a).final (p.final s) := by
    simp [Program.final, bind_of_ok ha]
  refine ⟨b, ?_, hfinal ▸ hQ⟩
  rw [bind_of_ok ha]
  exact hb

/-- The loop rule: `J done` holds once the members in `done` have been processed. -/
theorem ends_forM {l : List γ} {f : γ → Program σ ω ε PUnit.{u+1}} {J : List γ → σ → Prop}
    (hf : ∀ done a rest, l = done ++ a :: rest → ∀ t, J done t →
      Ends (f a) t fun _ => J (done ++ [a])) (h : J [] s) : Ends (l.forM f) s fun _ => J l := by
  suffices hrest : ∀ rest done, l = done ++ rest → ∀ t, J done t →
      Ends (rest.forM f) t fun _ => J l from hrest l [] rfl s h
  intro rest
  induction rest with
  | nil =>
    intro done hl t ht
    rw [List.append_nil] at hl
    exact ends_pure (hl ▸ ht)
  | cons a rest ih =>
    intro done hl t ht
    exact ends_bind ((hf done a rest hl t ht).mono fun _ u hu =>
      ih (done ++ [a]) (by simpa using hl) u hu)

end Completion

section Restarts
variable {σ ω ε : Type*} {α : Type u} [Commits σ ω]

/-- One attempt: a program that may be started in `s` is started and stops wherever it stops. -/
def Attempt (start : σ → Program σ ω ε α → Prop) (s s' : σ) : Prop :=
  ∃ p, start s p ∧ p.Crashes s s'

/-- Any number of attempts, each started in the state the one before it left behind. -/
def Restarted (start : σ → Program σ ω ε α → Prop) : σ → σ → Prop := ReflTransGen (Attempt start)

theorem restarted_invariant {start : σ → Program σ ω ε α → Prop} {I : σ → Prop}
    (h : ∀ s p, start s p → I s → ∀ s', p.Crashes s s' → I s') {s s' : σ}
    (hr : Restarted start s s') (hs : I s) : I s' := by
  induction hr with
  | refl => exact hs
  | tail _ hattempt ih =>
    obtain ⟨p, hp, hc⟩ := hattempt
    exact h _ p hp ih _ hc

end Restarts

end Space2.Base.Durable
