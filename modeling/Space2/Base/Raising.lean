import Mathlib

/-!
# Programs that raise half-way

A program reads and changes a state and may raise; what it changed before stays
changed. `Ensures P p Q E` says that from a state with `P` the program either
answers with `Q` or raises and leaves a state with `E`. The rules follow the
program text, and a loop needs an invariant of what has been visited.
-/
namespace Space2.Base

def Op (σ α : Type) := σ → Except String α × σ

namespace Op

variable {σ α β : Type}

def next (p : Op σ α) (f : α → Op σ β) : Op σ β := fun s =>
  match p s with
  | (.ok a, s') => f a s'
  | (.error message, s') => (.error message, s')

instance : Monad (Op σ) where
  pure a := fun s => (.ok a, s)
  bind := next

def raise (message : String) : Op σ α := fun s => (.error message, s)
def get : Op σ σ := fun s => (.ok s, s)
def modify (f : σ → σ) : Op σ Unit := fun s => (.ok (), f s)
def ofExcept (result : Except String α) : Op σ α := fun s => (result, s)

def require (condition : Prop) [Decidable condition] (message : String) : Op σ Unit :=
  if condition then pure () else raise message

def forEach : List β → (β → Op σ Unit) → Op σ Unit
  | [], _ => pure ()
  | b :: rest, f => do
    f b
    forEach rest f

/-- `pcall`, which gives what is raised as a value. -/
def caught (p : Op σ α) : Op σ (Except String α) := fun s => (.ok (p s).1, (p s).2)

/-- A loop under `pcall` that keeps the list of what it has done: it gives what was raised, if
anything, and the members that were done before. -/
def doEach (f : β → Op σ Unit) : List β → Op σ (Option String × List β)
  | [], s => (.ok (none, []), s)
  | b :: rest, s =>
    match f b s with
    | (.error message, s') => (.ok (some message, []), s')
    | (.ok (), s') =>
      match doEach f rest s' with
      | (.ok (failure, done), s'') => (.ok (failure, b :: done), s'')
      | (.error message, s'') => (.error message, s'')

/-! ## Runs -/

@[simp] theorem pure_run (a : α) (s : σ) : (pure a : Op σ α) s = (.ok a, s) := rfl

theorem bind_run (p : Op σ α) (f : α → Op σ β) (s : σ) : (p >>= f) s = next p f s := rfl

theorem bind_ok {p : Op σ α} {f : α → Op σ β} {s s' : σ} {a : α} (h : p s = (.ok a, s')) :
    (p >>= f) s = f a s' := by
  rw [bind_run, next, h]

theorem bind_error {p : Op σ α} {f : α → Op σ β} {s s' : σ} {message : String}
    (h : p s = (.error message, s')) : (p >>= f) s = (.error message, s') := by
  rw [bind_run, next, h]

@[simp] theorem modify_run (f : σ → σ) (s : σ) : modify f s = (.ok (), f s) := rfl

@[simp] theorem get_bind_run (f : σ → Op σ β) (s : σ) : (get >>= f) s = f s s := rfl

@[simp] theorem modify_bind_run (g : σ → σ) (f : Unit → Op σ β) (s : σ) :
    (modify g >>= f) s = f () (g s) := rfl

@[simp] theorem ofExcept_ok_bind (a : α) (f : α → Op σ β) (s : σ) :
    (ofExcept (.ok a) >>= f) s = f a s := rfl

@[simp] theorem ofExcept_error_bind (message : String) (f : α → Op σ β) (s : σ) :
    (ofExcept (.error message) >>= f) s = (.error message, s) := rfl

theorem require_run {condition : Prop} [Decidable condition] (h : condition) (message : String)
    (s : σ) : (require condition message : Op σ Unit) s = (.ok (), s) := by
  rw [require, if_pos h]
  rfl

theorem require_error {condition : Prop} [Decidable condition] (h : ¬ condition) (message : String)
    (s : σ) : (require condition message : Op σ Unit) s = (.error message, s) := by
  rw [require, if_neg h]
  rfl

/-! ## What a program ensures -/

def Ensures (P : σ → Prop) (p : Op σ α) (Q : α → σ → Prop) (E : σ → Prop) : Prop :=
  ∀ s, P s → (∀ a s', p s = (.ok a, s') → Q a s') ∧ ∀ message s', p s = (.error message, s') → E s'

variable {P P' : σ → Prop} {Q Q' : α → σ → Prop} {E E' : σ → Prop}

theorem Ensures.ok {p : Op σ α} (h : Ensures P p Q E) {s s' : σ} {a : α} (hs : P s)
    (hrun : p s = (.ok a, s')) : Q a s' := (h s hs).1 a s' hrun

theorem Ensures.error {p : Op σ α} (h : Ensures P p Q E) {s s' : σ} {message : String} (hs : P s)
    (hrun : p s = (.error message, s')) : E s' := (h s hs).2 message s' hrun

/-- The state that is left, whether the program answers or raises. -/
theorem Ensures.left {p : Op σ α} (h : Ensures P p Q E) {R : σ → Prop} (hQ : ∀ a s, Q a s → R s)
    (hE : ∀ s, E s → R s) {s : σ} (hs : P s) : R (p s).2 := by
  cases hrun : p s with
  | mk result s' =>
    cases result with
    | ok a => exact hQ a s' (h.ok hs hrun)
    | error message => exact hE s' (h.error hs hrun)

theorem Ensures.weaken {p : Op σ α} (h : Ensures P' p Q' E') (hP : ∀ s, P s → P' s)
    (hQ : ∀ a s, Q' a s → Q a s) (hE : ∀ s, E' s → E s) : Ensures P p Q E := fun s hs =>
  ⟨fun a s' hrun => hQ a s' (h.ok (hP s hs) hrun),
    fun _ s' hrun => hE s' (h.error (hP s hs) hrun)⟩

/-- A fact about no state is taken out of the precondition. -/
theorem ensures_given {fact : Prop} {p : Op σ α} (h : fact → Ensures P p Q E) :
    Ensures (fun s => P s ∧ fact) p Q E := fun s hs => h hs.2 s hs.1

/-- A value computed from the first state may be named. -/
theorem ensures_framed {γ : Type} (g : σ → γ) {p : Op σ α}
    (h : ∀ c, Ensures (fun s => P s ∧ g s = c) p Q E) : Ensures P p Q E := fun s hs =>
  h (g s) s ⟨hs, rfl⟩

theorem ensures_pure {a : α} (h : ∀ s, P s → Q a s) : Ensures P (pure a) Q E := by
  intro s hs
  refine ⟨fun b s' hrun => ?_, fun message s' hrun => ?_⟩
  · obtain ⟨hvalue, rfl⟩ := Prod.mk.inj hrun
    obtain rfl := Except.ok.inj hvalue
    exact h s hs
  · exact absurd (Prod.mk.inj hrun).1 (by simp)

theorem ensures_raise {message : String} (h : ∀ s, P s → E s) :
    Ensures P (raise message : Op σ α) Q E := by
  intro s hs
  refine ⟨fun b s' hrun => ?_, fun other s' hrun => ?_⟩
  · exact absurd (Prod.mk.inj hrun).1 (by simp)
  · obtain rfl := (Prod.mk.inj hrun).2
    exact h s hs

theorem ensures_bind {p : Op σ α} {f : α → Op σ β} {R : α → σ → Prop} {S : β → σ → Prop}
    (h : Ensures P p R E) (hf : ∀ a, Ensures (R a) (f a) S E) : Ensures P (p >>= f) S E := by
  intro s hs
  cases hp : p s with
  | mk result s' =>
    cases result with
    | ok a =>
      rw [bind_ok hp]
      exact hf a s' (h.ok hs hp)
    | error message =>
      rw [bind_error hp]
      refine ⟨fun b s'' hrun => absurd (Prod.mk.inj hrun).1 (by simp), fun other s'' hrun => ?_⟩
      obtain rfl := (Prod.mk.inj hrun).2
      exact h.error hs hp

theorem ensures_get {f : σ → Op σ β} {S : β → σ → Prop}
    (h : ∀ s, P s → Ensures (· = s) (f s) S E) : Ensures P (get >>= f) S E := by
  intro s hs
  rw [get_bind_run]
  exact h s hs s rfl

/-- What holds of the state that was read still holds when the program goes on. -/
theorem ensures_get_kept {f : σ → Op σ β} {S : β → σ → Prop} (h : ∀ s, P s → Ensures P (f s) S E) :
    Ensures P (get >>= f) S E := by
  intro s hs
  rw [get_bind_run]
  exact h s hs s hs

theorem ensures_modify {f : σ → σ} {Q : Unit → σ → Prop} (h : ∀ s, P s → Q () (f s)) :
    Ensures P (modify f) Q E := by
  intro s hs
  refine ⟨fun a s' hrun => ?_, fun message s' hrun => absurd (Prod.mk.inj hrun).1 (by simp)⟩
  obtain rfl := (Prod.mk.inj hrun).2
  exact h s hs

theorem ensures_require {condition : Prop} [Decidable condition] {message : String}
    {Q : Unit → σ → Prop} (h : ∀ s, P s → condition → Q () s) (hE : ∀ s, P s → ¬ condition → E s) :
    Ensures P (require condition message) Q E := by
  unfold require
  split_ifs with hcondition
  · exact ensures_pure fun s hs => h s hs hcondition
  · exact ensures_raise fun s hs => hE s hs hcondition

theorem ensures_ofExcept {result : Except String α} (h : ∀ a, result = .ok a → ∀ s, P s → Q a s)
    (hE : ∀ message, result = .error message → ∀ s, P s → E s) :
    Ensures P (ofExcept result) Q E := by
  intro s hs
  refine ⟨fun a s' hrun => ?_, fun message s' hrun => ?_⟩
  · obtain ⟨hvalue, rfl⟩ := Prod.mk.inj hrun
    exact h a hvalue s hs
  · obtain ⟨hvalue, rfl⟩ := Prod.mk.inj hrun
    exact hE message hvalue s hs

theorem ensures_ofExcept_bind {result : Except String α} {f : α → Op σ β} {S : β → σ → Prop}
    (h : ∀ a, result = .ok a → Ensures P (f a) S E)
    (hE : ∀ message, result = .error message → ∀ s, P s → E s) :
    Ensures P (ofExcept result >>= f) S E := by
  intro s hs
  cases hresult : result with
  | ok a => exact h a hresult s hs
  | error message =>
    refine ⟨fun b s' hrun => absurd (Prod.mk.inj hrun).1 (by simp), fun other s' hrun => ?_⟩
    obtain rfl := (Prod.mk.inj hrun).2
    exact hE message hresult s hs

theorem ensures_require_bind {condition : Prop} [Decidable condition] {message : String}
    {f : Unit → Op σ β} {S : β → σ → Prop} (h : condition → Ensures P (f ()) S E)
    (hE : ¬ condition → ∀ s, P s → E s) : Ensures P (require condition message >>= f) S E := by
  unfold require
  split_ifs with hcondition
  · exact h hcondition
  · intro s hs
    refine ⟨fun b s' hrun => absurd (Prod.mk.inj hrun).1 (by simp), fun other s' hrun => ?_⟩
    obtain rfl := (Prod.mk.inj hrun).2
    exact hE hcondition s hs

theorem ensures_modify_bind {g : σ → σ} {f : Unit → Op σ β} {S : β → σ → Prop}
    (R : σ → Prop) (hg : ∀ s, P s → R (g s)) (h : Ensures R (f ()) S E) :
    Ensures P (modify g >>= f) S E := fun s hs => h (g s) (hg s hs)

/-- A loop that keeps an invariant of the members it has visited. -/
theorem ensures_forEach {I : List β → σ → Prop} {f : β → Op σ Unit} {l : List β}
    (h : ∀ done b rest, l = done ++ b :: rest → Ensures (I done) (f b) (fun _ => I (done ++ [b])) E) :
    Ensures (I []) (forEach l f) (fun _ => I l) E := by
  suffices hfrom : ∀ done rest, l = done ++ rest →
      Ensures (I done) (forEach rest f) (fun _ => I l) E from hfrom [] l rfl
  intro done rest
  induction rest generalizing done with
  | nil =>
    intro hl
    rw [List.append_nil] at hl
    subst hl
    exact ensures_pure fun _ hs => hs
  | cons b rest ih =>
    intro hl
    exact ensures_bind (h done b rest hl) fun _ => ih (done ++ [b]) (by simpa using hl)

theorem ensures_forEach_inv {I : σ → Prop} {f : β → Op σ Unit} {l : List β}
    (h : ∀ b ∈ l, Ensures I (f b) (fun _ => I) E) : Ensures I (forEach l f) (fun _ => I) E :=
  ensures_forEach (I := fun _ => I) fun done b rest hl => h b (by simp [hl])

/-- A loop that stops where a member raises: what holds of the members it has done. -/
theorem ensures_doEach {I : List β → σ → Prop} {f : β → Op σ Unit} {l : List β}
    (h : ∀ done b rest, l = done ++ b :: rest →
      Ensures (I done) (f b) (fun _ => I (done ++ [b])) (I done)) :
    Ensures (I []) (doEach f l)
      (fun answer s => I answer.2 s ∧ answer.2 <+: l ∧ (answer.1 = none → answer.2 = l)) E := by
  suffices hfrom : ∀ done rest, l = done ++ rest → ∀ s, I done s →
      ∃ failure more s', doEach f rest s = (.ok (failure, more), s') ∧ I (done ++ more) s' ∧
        more <+: rest ∧ (failure = none → more = rest) by
    intro s hs
    obtain ⟨failure, more, s', hrun, hmore⟩ := hfrom [] l rfl s hs
    constructor
    · intro answer other hother
      rw [hrun] at hother
      obtain ⟨hanswer, rfl⟩ := Prod.mk.inj hother
      obtain rfl := Except.ok.inj hanswer
      exact hmore
    · intro message other hother
      rw [hrun] at hother
      exact absurd (Prod.mk.inj hother).1 (by simp)
  intro done rest
  induction rest generalizing done with
  | nil =>
    intro _ s hs
    exact ⟨none, [], s, rfl, by rwa [List.append_nil], List.prefix_refl _, fun _ => rfl⟩
  | cons b rest ih =>
    intro hl s hs
    have hone := h done b rest hl
    cases hrun : f b s with
    | mk result s' =>
      cases result with
      | error message =>
        refine ⟨some message, [], s', ?_, ?_, List.nil_prefix, fun hnone => by cases hnone⟩
        · simp only [doEach, hrun]
        · rw [List.append_nil]
          exact hone.error hs hrun
      | ok value =>
        obtain ⟨failure, more, s'', hrest, hmore, hsome, hall⟩ :=
          ih (done ++ [b]) (by simpa using hl) s' (hone.ok hs hrun)
        refine ⟨failure, b :: more, s'', ?_, ?_, ?_, ?_⟩
        · simp only [doEach, hrun, hrest]
        · rwa [List.append_assoc, List.singleton_append] at hmore
        · exact List.cons_prefix_cons.mpr ⟨rfl, hsome⟩
        · intro hnone
          rw [hall hnone]

/-- What is raised is answered, with what holds then. -/
theorem ensures_caught {p : Op σ α} {R : σ → Prop} (h : Ensures P p Q E) :
    Ensures P (caught p)
      (fun result s => match result with
        | .ok a => Q a s
        | .error _ => E s) R := by
  intro s hs
  constructor
  · intro result s' hrun
    obtain ⟨rfl, rfl⟩ := Prod.mk.inj hrun |>.imp Except.ok.inj id
    cases hresult : (p s).1 with
    | ok a => exact h.ok hs (Prod.ext hresult rfl)
    | error message => exact h.error hs (Prod.ext hresult rfl)
  · intro message s' hrun
    exact absurd (Prod.mk.inj hrun).1 (by simp)

/-- What a program keeps whether it raises or not. -/
theorem ensures_caught_kept {p : Op σ α} {R : σ → Prop} (h : Ensures P p (fun _ => R) R) :
    Ensures P (caught p) (fun _ => R) E := by
  refine (ensures_caught h).weaken (fun _ hs => hs) ?_ (fun _ hE => hE)
  intro result s hs
  cases result with
  | ok a => exact hs
  | error message => exact hs

/-- Two loops whose bodies agree in every state the first one meets. -/
theorem forEach_congr {I : σ → Prop} {f g : β → Op σ Unit} {l : List β}
    (hkept : ∀ b ∈ l, Ensures I (f b) (fun _ => I) (fun _ => True))
    (hsame : ∀ b ∈ l, ∀ s, I s → f b s = g b s) {s : σ} (hs : I s) :
    forEach l f s = forEach l g s := by
  induction l generalizing s with
  | nil => rfl
  | cons b l ih =>
    have hfirst := hsame b List.mem_cons_self s hs
    cases hrun : f b s with
    | mk result s' =>
      rw [hrun] at hfirst
      cases result with
      | ok a =>
        rw [forEach, forEach, bind_ok hrun, bind_ok hfirst.symm]
        exact ih (fun c hc => hkept c (List.mem_cons_of_mem b hc))
          (fun c hc => hsame c (List.mem_cons_of_mem b hc))
          ((hkept b List.mem_cons_self).ok hs hrun)
      | error message => rw [forEach, forEach, bind_error hrun, bind_error hfirst.symm]

/-! ## Programs that always answer -/

theorem ensures_of_run {p : Op σ α} (h : ∀ s, P s → ∃ a s', p s = (.ok a, s') ∧ Q a s') :
    Ensures P p Q E := by
  intro s hs
  obtain ⟨a, s', hrun, hQ⟩ := h s hs
  rw [hrun]
  refine ⟨fun b t ht => ?_, fun message t ht => absurd (Prod.mk.inj ht).1 (by simp)⟩
  obtain ⟨hvalue, rfl⟩ := Prod.mk.inj ht
  obtain rfl := Except.ok.inj hvalue
  exact hQ

theorem Ensures.run_eq {p : Op σ α} (h : Ensures P p Q E) (hE : ∀ s, ¬ E s) {s : σ} (hs : P s) :
    ∃ a s', p s = (.ok a, s') ∧ Q a s' := by
  cases hrun : p s with
  | mk result s' =>
    cases result with
    | ok a => exact ⟨a, s', rfl, h.ok hs hrun⟩
    | error message => exact absurd (h.error hs hrun) (hE s')

theorem ensures_exists {R : β → σ → Prop} {p : Op σ α} (h : ∀ b, Ensures (R b) p Q E) :
    Ensures (fun s => ∃ b, R b s) p Q E := fun s ⟨b, hs⟩ => h b s hs

/-! ## Loops over other lists -/

theorem forEach_map {γ : Type} (g : γ → β) (f : β → Op σ Unit) (l : List γ) :
    forEach (l.map g) f = forEach l fun c => f (g c) := by
  induction l with
  | nil => rfl
  | cons c l ih => rw [List.map_cons, forEach, forEach, ih]

theorem forEach_filter (p : β → Bool) (f : β → Op σ Unit) (l : List β) :
    forEach (l.filter p) f = forEach l fun b => if p b = true then f b else pure () := by
  induction l with
  | nil => rfl
  | cons b l ih =>
    rw [List.filter_cons, forEach]
    split_ifs with hb
    · rw [forEach, ih]
    · rw [ih]
      rfl

theorem forEach_append (f : β → Op σ Unit) (l m : List β) :
    forEach (l ++ m) f = (do
      forEach l f
      forEach m f) := by
  induction l with
  | nil => rfl
  | cons b l ih =>
    funext s
    rw [List.cons_append, forEach, ih, forEach]
    cases hrun : f b s with
    | mk result s' =>
      cases result with
      | ok value => rw [bind_ok hrun, bind_run _ _ s, next, bind_ok hrun, bind_run, next]
      | error message => rw [bind_error hrun, bind_error (bind_error hrun)]

end Op

end Space2.Base
