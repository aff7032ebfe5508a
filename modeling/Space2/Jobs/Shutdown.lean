import Space2.Base.Runs
import Space2.Jobs.JobSystem

/-!
# Waiting for a job and shutting down

`popJob` takes a job in one critical section. Here the section is taken apart: a worker holds the
mutex while it tests the predicate and until it blocks, but `shutdown` sets `stop` without the mutex
and notifies once. A worker whose test has failed and who has not blocked yet misses both, so the
notification reaches every worker only when none stands at that point.
-/
namespace Space2.Jobs.Shutdown
open Base

/-- Where a worker stands in `worker_loop` and `pop_job`. -/
inductive Worker where
  /-- before the test of the loop -/
  | loop
  | entering
  /-- with the mutex, before the test of the predicate -/
  | testing
  /-- with the mutex, after the test has failed -/
  | blocking
  | blocked
  | woken
  /-- with the mutex, after `wait` has returned -/
  | leaving
  | running
  | exited
deriving DecidableEq, Repr

inductive Phase where
  | idle
  /-- `stop` is set and the workers are not notified yet -/
  | stopped
  /-- the workers before this one are joined -/
  | joining (i : Nat)
  | joined
deriving DecidableEq, Repr

structure State where
  workers : List Worker
  lockedBy : Option Nat
  jobQueue : List JobRequest
  /-- The calls of `submit` that have pushed their job and not notified yet. -/
  notifying : Nat
  stop : Bool
  phase : Phase
deriving DecidableEq, Repr

namespace State

def move (s : State) (i : Nat) (w : Worker) : State := { s with workers := s.workers.set i w }

/-- The next step of a worker that stands here. A worker may wake without a notification. -/
def advance (s : State) (i : Nat) : Worker → State
  | .loop => s.move i (if s.stop = true then .exited else .entering)
  | .entering | .woken =>
    if s.lockedBy = none then { s with lockedBy := some i }.move i .testing else s
  | .testing =>
    s.move i (if s.stop = true ∨ s.jobQueue.isEmpty = false then .leaving else .blocking)
  | .blocking => { s with lockedBy := none }.move i .blocked
  | .blocked => s.move i .woken
  | .leaving =>
    if s.stop = true ∧ s.jobQueue.isEmpty = true then { s with lockedBy := none }.move i .exited
    else { s with lockedBy := none, jobQueue := s.jobQueue.tail }.move i .running
  | .running => s.move i .loop
  | .exited => s

def worker (s : State) (i : Nat) : State :=
  match s.workers[i]? with
  | some w => s.advance i w
  | none => s

/-- The push under the mutex, of a kind that has a handler. -/
def submit (s : State) (request : JobRequest) : State :=
  if s.lockedBy = none then
    { s with jobQueue := s.jobQueue ++ [request], notifying := s.notifying + 1 }
  else s

/-- `notify_one` wakes some blocked worker, and nobody when none is blocked. -/
def notifyOne (s : State) (i : Nat) : State :=
  if s.notifying = 0 then s
  else if s.workers[i]? = some .blocked then
    { s with notifying := s.notifying - 1 }.move i .woken
  else if .blocked ∈ s.workers then s
  else { s with notifying := s.notifying - 1 }

/-- `stop.compare_exchange_strong` lets one call on. -/
def setStop (s : State) : State :=
  if s.stop = true then s else { s with stop := true, phase := .stopped }

def notifyAll (s : State) : State :=
  match s.phase with
  | .stopped =>
    { s with
      workers := s.workers.map fun w => if w = .blocked then .woken else w
      phase := .joining 0 }
  | _ => s

/-- `join` waits for the next worker to exit. -/
def join (s : State) : State :=
  match s.phase with
  | .joining i =>
    match s.workers[i]? with
    | some .exited => { s with phase := .joining (i + 1) }
    | some _ => s
    | none => { s with phase := .joined }
  | _ => s

end State

inductive Action where
  | worker (i : Nat)
  | submit (request : JobRequest)
  | notifyOne (i : Nat)
  | setStop
  | notifyAll
  | join
deriving DecidableEq, Repr

/-- A thread that cannot go on leaves the state as it is. -/
def step (s : State) : Action → State
  | .worker i => s.worker i
  | .submit request => s.submit request
  | .notifyOne i => s.notifyOne i
  | .setStop => s.setStop
  | .notifyAll => s.notifyAll
  | .join => s.join

def State.start (threads : Nat) : State where
  workers := List.replicate threads .loop
  lockedBy := none
  jobQueue := []
  notifying := 0
  stop := false
  phase := .idle

def Phase.notified : Phase → Bool
  | .idle | .stopped => false
  | .joining _ | .joined => true

def Phase.isJoining : Phase → Bool
  | .joining _ => true
  | _ => false

/-- `shutdown` joins, a worker is blocked, and no notification is left to wake it. -/
def State.Stuck (s : State) : Prop :=
  s.phase.isJoining = true ∧ s.notifying = 0 ∧ .blocked ∈ s.workers

instance (s : State) : Decidable s.Stuck := by unfold State.Stuck; infer_instance

/-- No worker stands between its failed test and its wait when all are notified. -/
def Timely (s : State) (action : Action) : Prop :=
  action = .notifyAll → s.phase = .stopped → .blocking ∉ s.workers

instance (s : State) (action : Action) : Decidable (Timely s action) := by
  unfold Timely
  infer_instance

/-- The flag is set before the notification, and after it nobody waits or is about to. -/
structure State.Awake (s : State) : Prop where
  flag : s.phase ≠ .idle → s.stop = true
  awake : s.phase.notified = true → .blocking ∉ s.workers ∧ .blocked ∉ s.workers

section Steps
variable {s t : State} {i : Nat} {place : Worker} {action : Action}

/-- What a step of a worker does: the flag and the phase stay, and a worker comes to the wait by a
test that failed before `stop` was set. -/
structure ByWorker (s t : State) : Prop where
  stop : t.stop = s.stop
  phase : t.phase = s.phase
  blocking : .blocking ∈ t.workers → .blocking ∈ s.workers ∨ s.stop = false
  blocked : .blocked ∈ t.workers → .blocked ∈ s.workers ∨ .blocking ∈ s.workers

theorem ByWorker.refl (s : State) : ByWorker s s := ⟨rfl, rfl, .inl, .inl⟩

theorem ByWorker.move (h : ByWorker s t) (i : Nat)
    (hblocking : place = .blocking → s.stop = false)
    (hblocked : place = .blocked → .blocking ∈ s.workers) : ByWorker s (t.move i place) where
  stop := h.stop
  phase := h.phase
  blocking hmem := by
    rcases List.mem_or_eq_of_mem_set hmem with hold | hnew
    · exact h.blocking hold
    · exact .inr (hblocking hnew.symm)
  blocked hmem := by
    rcases List.mem_or_eq_of_mem_set hmem with hold | hnew
    · exact h.blocked hold
    · exact .inr (hblocked hnew.symm)

/-- A place other than those at the wait. -/
theorem ByWorker.moveOn (h : ByWorker s t) (i : Nat) (hblocking : place ≠ .blocking)
    (hblocked : place ≠ .blocked) : ByWorker s (t.move i place) :=
  h.move i (absurd · hblocking) (absurd · hblocked)

theorem ByWorker.unlock (h : ByWorker s t) (owner : Option Nat) (queue : List JobRequest) :
    ByWorker s { t with lockedBy := owner, jobQueue := queue } :=
  ⟨h.stop, h.phase, h.blocking, h.blocked⟩

theorem worker_spec (s : State) (i : Nat) : ByWorker s (s.worker i) := by
  have hsame := ByWorker.refl s
  unfold State.worker
  cases hi : s.workers[i]? with
  | none => exact hsame
  | some w =>
    cases w with
    | loop =>
      apply hsame.moveOn <;> split_ifs <;> decide
    | entering =>
      simp only [State.advance]
      split_ifs with hfree
      · exact (hsame.unlock (some i) s.jobQueue).moveOn i (by decide) (by decide)
      · exact hsame
    | testing =>
      apply hsame.move
      · intro hplace
        split_ifs at hplace with htest
        simpa using (not_or.mp htest).1
      · intro hplace
        split_ifs at hplace
    | blocking =>
      exact (hsame.unlock none s.jobQueue).move i (fun h => by cases h)
        fun _ => List.mem_of_getElem? hi
    | blocked => exact hsame.moveOn i (by decide) (by decide)
    | woken =>
      simp only [State.advance]
      split_ifs with hfree
      · exact (hsame.unlock (some i) s.jobQueue).moveOn i (by decide) (by decide)
      · exact hsame
    | leaving =>
      simp only [State.advance]
      split_ifs with hstop
      · exact (hsame.unlock none s.jobQueue).moveOn i (by decide) (by decide)
      · exact (hsame.unlock none s.jobQueue.tail).moveOn i (by decide) (by decide)
    | running => exact hsame.moveOn i (by decide) (by decide)
    | exited => exact hsame

theorem State.Awake.worker (h : s.Awake) (i : Nat) : (s.worker i).Awake := by
  have hspec := worker_spec s i
  constructor
  · rw [hspec.phase, hspec.stop]
    exact h.flag
  · rw [hspec.phase]
    intro hnotified
    obtain ⟨hblocking, hblocked⟩ := h.awake hnotified
    have hstop : s.stop = true := by
      apply h.flag
      rintro hidle
      rw [hidle] at hnotified
      cases hnotified
    constructor
    · intro hmem
      rcases hspec.blocking hmem with hold | hclear
      · exact hblocking hold
      · rw [hstop] at hclear
        cases hclear
    · intro hmem
      exact (hspec.blocked hmem).elim hblocked hblocking

theorem State.Awake.notifyOne (h : s.Awake) (i : Nat) : (s.notifyOne i).Awake := by
  unfold State.notifyOne
  split_ifs with hnone hblocked hothers
  · exact h
  · refine ⟨h.flag, fun hnotified => ?_⟩
    exact absurd (List.mem_of_getElem? hblocked) (h.awake hnotified).2
  · exact h
  · exact ⟨h.flag, h.awake⟩

theorem State.Awake.setStop (h : s.Awake) : s.setStop.Awake := by
  unfold State.setStop
  split_ifs with hstop
  · exact h
  · exact ⟨fun _ => rfl, fun hnotified => by cases hnotified⟩

/-- The notification finds nobody between test and wait and wakes all that are blocked. -/
theorem State.Awake.notifyAll (h : s.Awake) (htimely : Timely s .notifyAll) :
    s.notifyAll.Awake := by
  unfold State.notifyAll
  split
  next hphase =>
    have hblocking := htimely rfl hphase
    refine ⟨fun _ => h.flag (by rw [hphase]; decide), fun _ => ⟨?_, ?_⟩⟩
    · intro hmem
      obtain ⟨w, hw, hplace⟩ := List.mem_map.mp hmem
      split_ifs at hplace with hwas
      rw [hplace] at hw
      exact hblocking hw
    · intro hmem
      obtain ⟨w, hw, hplace⟩ := List.mem_map.mp hmem
      split_ifs at hplace with hwas
      exact hwas hplace
  next => exact h

theorem State.Awake.join (h : s.Awake) : s.join.Awake := by
  unfold State.join
  split
  next i hphase =>
    have hkept := h.awake (by rw [hphase]; rfl)
    have hflag := h.flag (by rw [hphase]; simp)
    split
    · exact ⟨fun _ => hflag, fun _ => hkept⟩
    · exact h
    · exact ⟨fun _ => hflag, fun _ => hkept⟩
  next => exact h

theorem State.Awake.step (h : s.Awake) (htimely : Timely s action) : (step s action).Awake := by
  cases action with
  | worker i => exact h.worker i
  | submit request =>
    simp only [Shutdown.step, State.submit]
    split_ifs
    · exact ⟨h.flag, h.awake⟩
    · exact h
  | notifyOne i => exact h.notifyOne i
  | setStop => exact h.setStop
  | notifyAll => exact h.notifyAll htimely
  | join => exact h.join

theorem start_awake (threads : Nat) : (State.start threads).Awake :=
  ⟨fun h => absurd rfl h, fun h => by cases h⟩

end Steps

section Untimely
variable {s : State} {i : Nat}

/-- The notifications of `submit` go to others or to nobody, and then the worker blocks. -/
theorem sticks_of_blocking (hjoining : s.phase.isJoining = true)
    (hi : s.workers[i]? = some .blocking) :
    ∃ actions : List Action, (actions.foldl step s).Stuck := by
  induction hcount : s.notifying generalizing s with
  | zero =>
    have hlt : i < s.workers.length := (List.getElem?_eq_some_iff.mp hi).1
    have hstep : step s (.worker i) = { s with lockedBy := none }.move i .blocked := by
      simp only [step, State.worker, hi, State.advance]
    refine ⟨[.worker i], ?_⟩
    rw [List.foldl_cons, List.foldl_nil, hstep]
    exact ⟨hjoining, hcount, List.mem_set hlt _⟩
  | succ left ih =>
    have hpending : s.notifying ≠ 0 := by omega
    by_cases hblocked : .blocked ∈ s.workers
    · obtain ⟨j, hj⟩ := List.getElem?_of_mem hblocked
      have hother : j ≠ i := by
        rintro rfl
        rw [hi] at hj
        cases hj
      have hstep : step s (.notifyOne j) =
          { s with notifying := s.notifying - 1 }.move j .woken := by
        simp only [step, State.notifyOne, if_neg hpending, if_pos hj]
      obtain ⟨actions, hstuck⟩ := @ih ({ s with notifying := s.notifying - 1 }.move j .woken)
        hjoining ((List.getElem?_set_ne hother).trans hi) (by simp [State.move, hcount])
      exact ⟨.notifyOne j :: actions, by rwa [List.foldl_cons, hstep]⟩
    · have hstep : step s (.notifyOne i) = { s with notifying := s.notifying - 1 } := by
        have hnot : s.workers[i]? ≠ some .blocked := by simp [hi]
        simp only [step, State.notifyOne, if_neg hpending, if_neg hnot, if_neg hblocked]
      obtain ⟨actions, hstuck⟩ := @ih { s with notifying := s.notifying - 1 } hjoining hi
        (by simp [hcount])
      exact ⟨.notifyOne i :: actions, by rwa [List.foldl_cons, hstep]⟩

/-- A notification that finds a worker between its test and its wait can leave him there. -/
theorem sticks_of_untimely (h : ¬ Timely s .notifyAll) :
    ∃ actions : List Action, ((.notifyAll :: actions).foldl step s).Stuck := by
  simp only [Timely, Classical.not_imp, not_not] at h
  obtain ⟨-, hphase, hmem⟩ := h
  obtain ⟨i, hi⟩ := List.getElem?_of_mem hmem
  have hafter : s.notifyAll.workers[i]? = some .blocking := by
    simp [State.notifyAll, hphase, hi]
  have hjoining : s.notifyAll.phase.isJoining = true := by
    simp [State.notifyAll, hphase, Phase.isJoining]
  exact sticks_of_blocking hjoining hafter

end Untimely

/-- In every run whose notification finds no worker between its failed test and its wait, nobody is
left blocked while `shutdown` joins. -/
theorem shutdown_wakes_all (threads : Nat) (actions : List Action)
    (h : Along step Timely (State.start threads) actions) :
    ¬ (actions.foldl step (State.start threads)).Stuck := by
  have hawake := h.invariant (fun s action hs => hs.step) (start_awake threads)
  rintro ⟨hjoining, -, hblocked⟩
  have hnotified : (actions.foldl step (State.start threads)).phase.notified = true := by
    revert hjoining
    cases (actions.foldl step (State.start threads)).phase <;> simp [Phase.isJoining, Phase.notified]
  exact (hawake.awake hnotified).2 hblocked

/-- Two workers, one of which waits for a job when the other runs it and all stop. -/
theorem shutdown_wakes_two :
    ¬ ([.worker 0, .worker 0, .worker 0, .worker 0, .submit ⟨1, "echo", "a", .lua⟩, .notifyOne 0,
      .worker 1, .setStop, .notifyAll, .worker 0, .worker 0, .join].foldl step
        (State.start 2)).Stuck :=
  shutdown_wakes_all 2 _ (by decide)

/-- The worker tests the predicate, `shutdown` sets `stop` and notifies, and then the worker
blocks. -/
theorem lost_wakeup : ¬ ∀ (threads : Nat) (actions : List Action),
    ¬ (actions.foldl step (State.start threads)).Stuck := by
  intro hclaim
  exact hclaim 1 [.worker 0, .worker 0, .worker 0, .setStop, .notifyAll, .worker 0] (by decide)

end Space2.Jobs.Shutdown
