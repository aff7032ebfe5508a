import Mathlib
import Space2.Base.Draining

/-!
# The runtime scheduler

A scheduler keeps the jobs that have not run out, and advancing its time runs the due
ones one by one, the earliest first. A callback may cancel jobs. Which ones it cancels
is asked of what has run so far.
-/
namespace Space2.RuntimeScheduler

open Space2.Base

/-- An interval is never zero. -/
inductive Kind
  | once
  | interval (intervalNs : ℕ) (positive : 0 < intervalNs)
  deriving DecidableEq

/-- A job is active while the scheduler has it. -/
structure Job where
  id : ℕ
  kind : Kind
  deadlineNs : ℕ
  createdOrder : ℕ
  deriving DecidableEq

inductive Event
  | created (job : Job) (nowNs : ℕ)
  | ran (job : Job) (occurrence : ℕ)
  | cancelled (id : ℕ)
  deriving DecidableEq

/-- The scheduler, and what happened since it was made. -/
structure Scheduler where
  nowNs : ℕ
  nextId : ℕ
  jobs : List Job
  events : List Event
  deriving DecidableEq

def Event.execution : Event → Option (Job × ℕ)
  | .ran job occurrence => some (job, occurrence)
  | _ => none

/-- What ran, in order, with its occurrence. -/
def Scheduler.executed (scheduler : Scheduler) : List (Job × ℕ) :=
  scheduler.events.filterMap Event.execution

/-- How many times a job ran. -/
def Scheduler.runs (scheduler : Scheduler) (id : ℕ) : ℕ :=
  scheduler.executed.countP fun execution => execution.1.id = id

inductive Command
  | cancel (id : ℕ)
  | clear

abbrev Callback := List (Job × ℕ) → List Command

def create : Scheduler := ⟨0, 1, [], []⟩

/-! ## Cancelling -/

def Scheduler.cancel (scheduler : Scheduler) (id : ℕ) : Scheduler :=
  if scheduler.jobs.any fun job => job.id = id then
    { scheduler with
      jobs := scheduler.jobs.filter fun job => job.id ≠ id
      events := scheduler.events ++ [.cancelled id] }
  else scheduler

def Scheduler.clear (scheduler : Scheduler) : Scheduler :=
  { scheduler with
    jobs := []
    events := scheduler.events ++ scheduler.jobs.map fun job => .cancelled job.id }

def Scheduler.perform (scheduler : Scheduler) : Command → Scheduler
  | .cancel id => scheduler.cancel id
  | .clear => scheduler.clear

/-! ## Scheduling -/

def Scheduler.insertJob (scheduler : Scheduler) (kind : Kind) (delayNs : ℕ) : Scheduler :=
  let id := scheduler.nextId
  let job := ⟨id, kind, scheduler.nowNs + delayNs, id⟩
  { scheduler with
    nextId := id + 1
    jobs := scheduler.jobs ++ [job]
    events := scheduler.events ++ [.created job scheduler.nowNs] }

def Scheduler.scheduleOnce (scheduler : Scheduler) (delayNs : ℕ) : Scheduler :=
  scheduler.insertJob .once delayNs

def Scheduler.scheduleEvery (scheduler : Scheduler) (intervalNs : ℕ) : Except String Scheduler :=
  if hzero : intervalNs = 0 then throw "[runtime-scheduler] schedule-every interval requires positive duration"
  else pure (scheduler.insertJob (.interval intervalNs (Nat.pos_of_ne_zero hzero)) intervalNs)

/-! ## Running -/

def earlierJob (left right : Job) : Bool :=
  if left.deadlineNs < right.deadlineNs then true
  else if left.deadlineNs > right.deadlineNs then false
  else left.createdOrder < right.createdOrder

def Scheduler.earliestDueJob (scheduler : Scheduler) : Option Job :=
  scheduler.jobs.foldl
    (fun earliest job =>
      if job.deadlineNs ≤ scheduler.nowNs ∧ earliest.all (earlierJob job) = true then some job else earliest)
    none

/-- Runs the callback of a job, which may cancel others. -/
def Scheduler.call (callback : Callback) (scheduler : Scheduler) (job : Job) : Scheduler :=
  let called := { scheduler with events := scheduler.events ++ [.ran job (scheduler.runs job.id)] }
  (callback called.executed).foldl Scheduler.perform called

def postpone (id intervalNs : ℕ) (job : Job) : Job :=
  if job.id = id then { job with deadlineNs := job.deadlineNs + intervalNs } else job

def Scheduler.executeJob (callback : Callback) (scheduler : Scheduler) (job : Job) : Scheduler :=
  match job.kind with
  | .interval intervalNs _ =>
    let called := scheduler.call callback job
    if called.jobs.any fun other => other.id = job.id then
      { called with jobs := called.jobs.map (postpone job.id intervalNs) }
    else called
  | .once =>
    Scheduler.call callback { scheduler with jobs := scheduler.jobs.filter fun other => other.id ≠ job.id } job

def Scheduler.next (callback : Callback) (scheduler : Scheduler) : Option Scheduler :=
  scheduler.earliestDueJob.map (scheduler.executeJob callback)

/-- How often a job runs until `nowNs`. -/
def Job.dueRuns (nowNs : ℕ) (job : Job) : ℕ :=
  if job.deadlineNs ≤ nowNs then
    match job.kind with
    | .once => 1
    | .interval intervalNs _ => (nowNs - job.deadlineNs) / intervalNs + 1
  else 0

def Scheduler.work (scheduler : Scheduler) : ℕ :=
  (scheduler.jobs.map (Job.dueRuns scheduler.nowNs)).sum

def Scheduler.drainDue (callback : Callback) (scheduler : Scheduler) : Scheduler :=
  drain (Scheduler.next callback) scheduler.work scheduler

def Scheduler.advance (callback : Callback) (scheduler : Scheduler) (duration : ℕ) : Scheduler :=
  Scheduler.drainDue callback { scheduler with nowNs := scheduler.nowNs + duration }

/-! ## The earliest job -/

def Job.key (job : Job) : ℕ ×ₗ ℕ := toLex (job.deadlineNs, job.createdOrder)

theorem earlierJob_iff (left right : Job) : earlierJob left right = true ↔ left.key < right.key := by
  rw [Job.key, Job.key, Prod.Lex.toLex_lt_toLex, earlierJob]
  by_cases hless : left.deadlineNs < right.deadlineNs
  · rw [if_pos hless]
    exact iff_of_true rfl (.inl hless)
  · rw [if_neg hless]
    by_cases hmore : left.deadlineNs > right.deadlineNs
    · rw [if_pos hmore]
      dsimp only
      have hne : left.deadlineNs ≠ right.deadlineNs := by omega
      simp [hless, hne]
    · have heq : left.deadlineNs = right.deadlineNs := by omega
      rw [if_neg hmore]
      simp [heq]

theorem key_le_of_late {job other : Job} {nowNs : ℕ} (hdue : job.deadlineNs ≤ nowNs)
    (hlate : nowNs < other.deadlineNs) : job.key ≤ other.key := by
  rw [Job.key, Job.key, Prod.Lex.toLex_le_toLex]
  exact .inl (hdue.trans_lt hlate)

variable {scheduler scheduler' : Scheduler} {callback : Callback} {job other : Job}

def Earliest (nowNs : ℕ) (jobs : List Job) (start : Option Job) : Option Job → Prop
  | none => start = none ∧ ∀ job ∈ jobs, nowNs < job.deadlineNs
  | some found =>
    (start = some found ∨ found ∈ jobs ∧ found.deadlineNs ≤ nowNs) ∧
      (∀ job ∈ start, found.key ≤ job.key) ∧
      ∀ job ∈ jobs, job.deadlineNs ≤ nowNs → found.key ≤ job.key

/-- The fold keeps the earliest of the due jobs it has met and the one it started with. -/
theorem foldl_earliest (nowNs : ℕ) (jobs : List Job) (start : Option Job) :
    Earliest nowNs jobs start (jobs.foldl (fun earliest job =>
      if job.deadlineNs ≤ nowNs ∧ earliest.all (earlierJob job) = true then some job else earliest) start) := by
  induction jobs generalizing start with
  | nil =>
    cases start with
    | none => exact ⟨rfl, by simp⟩
    | some found => exact ⟨.inl rfl, by simp, by simp⟩
  | cons first jobs ih =>
    rw [List.foldl_cons]
    by_cases hfirst : first.deadlineNs ≤ nowNs ∧ start.all (earlierJob first) = true
    · rw [if_pos hfirst]
      have hrest := ih (some first)
      generalize List.foldl _ (some first) jobs = result at hrest ⊢
      cases result with
      | none => cases hrest.1
      | some found =>
        obtain ⟨hwhere, hstart, hjobs⟩ := hrest
        have hle : found.key ≤ first.key := hstart first rfl
        refine ⟨?_, ?_, ?_⟩
        · rcases hwhere with heq | ⟨hmem, hdue⟩
          · cases heq
            exact .inr ⟨List.mem_cons_self, hfirst.1⟩
          · exact .inr ⟨List.mem_cons_of_mem _ hmem, hdue⟩
        · intro job hjob
          have hearlier : earlierJob first job = true := by
            rw [Option.mem_def] at hjob
            rw [hjob] at hfirst
            simpa using hfirst.2
          exact hle.trans ((earlierJob_iff first job).mp hearlier).le
        · intro job hjob hdue
          rcases List.mem_cons.mp hjob with rfl | hjob
          · exact hle
          · exact hjobs job hjob hdue
    · rw [if_neg hfirst]
      have hrest := ih start
      generalize List.foldl _ start jobs = result at hrest ⊢
      cases result with
      | none =>
        obtain ⟨rfl, hjobs⟩ := hrest
        have hlate : ¬ first.deadlineNs ≤ nowNs := fun hdue => hfirst ⟨hdue, rfl⟩
        refine ⟨rfl, fun job hjob => ?_⟩
        rcases List.mem_cons.mp hjob with rfl | hjob
        · exact Nat.lt_of_not_le hlate
        · exact hjobs job hjob
      | some found =>
        obtain ⟨hwhere, hstart, hjobs⟩ := hrest
        refine ⟨hwhere.imp_right fun h => ⟨List.mem_cons_of_mem _ h.1, h.2⟩, hstart, fun job hjob hdue => ?_⟩
        rcases List.mem_cons.mp hjob with rfl | hjob
        · have hlater : ¬ start.all (earlierJob job) = true := fun h => hfirst ⟨hdue, h⟩
          cases hcase : start with
          | none => simp [hcase] at hlater
          | some before =>
            have hnot : ¬ job.key < before.key := by
              rw [← earlierJob_iff]
              simpa [hcase] using hlater
            exact (hstart before hcase).trans (not_lt.mp hnot)
        · exact hjobs job hjob hdue

theorem earliestDueJob_none (hnone : scheduler.earliestDueJob = none) :
    ∀ job ∈ scheduler.jobs, scheduler.nowNs < job.deadlineNs := by
  have hfold := foldl_earliest scheduler.nowNs scheduler.jobs none
  rw [Scheduler.earliestDueJob] at hnone
  rw [hnone] at hfold
  exact hfold.2

/-- No other job is earlier, due or not. -/
theorem earliestDueJob_some (hsome : scheduler.earliestDueJob = some job) :
    job ∈ scheduler.jobs ∧ job.deadlineNs ≤ scheduler.nowNs ∧ ∀ other ∈ scheduler.jobs, job.key ≤ other.key := by
  have hfold := foldl_earliest scheduler.nowNs scheduler.jobs none
  rw [Scheduler.earliestDueJob] at hsome
  rw [hsome] at hfold
  obtain ⟨hwhere, -, hjobs⟩ := hfold
  obtain ⟨hmem, hdue⟩ := hwhere.resolve_left (by simp)
  refine ⟨hmem, hdue, fun other hother => ?_⟩
  by_cases hlate : other.deadlineNs ≤ scheduler.nowNs
  · exact hjobs other hother hlate
  · exact key_le_of_late hdue (Nat.lt_of_not_le hlate)

/-! ## What one run does -/

/-- The run of a job before its callback cancels anything. -/
def Scheduler.settle (scheduler : Scheduler) (job : Job) : Scheduler :=
  { scheduler with
    jobs :=
      match job.kind with
      | .interval intervalNs _ => scheduler.jobs.map (postpone job.id intervalNs)
      | .once => scheduler.jobs.filter fun other => other.id ≠ job.id
    events := scheduler.events ++ [.ran job (scheduler.runs job.id)] }

def Scheduler.postponed (scheduler : Scheduler) (id intervalNs : ℕ) : Scheduler :=
  { scheduler with jobs := scheduler.jobs.map (postpone id intervalNs) }

@[simp] theorem postpone_id (id intervalNs : ℕ) (job : Job) : (postpone id intervalNs job).id = job.id := by
  rw [postpone]
  split <;> rfl

@[simp] theorem postpone_kind (id intervalNs : ℕ) (job : Job) : (postpone id intervalNs job).kind = job.kind := by
  rw [postpone]
  split <;> rfl

@[simp] theorem postpone_createdOrder (id intervalNs : ℕ) (job : Job) :
    (postpone id intervalNs job).createdOrder = job.createdOrder := by
  rw [postpone]
  split <;> rfl

theorem postpone_of_ne {id intervalNs : ℕ} (hne : job.id ≠ id) : postpone id intervalNs job = job := if_neg hne

theorem deadlineNs_le_postpone (id intervalNs : ℕ) (job : Job) :
    job.deadlineNs ≤ (postpone id intervalNs job).deadlineNs := by
  rw [postpone]
  split
  · exact Nat.le_add_right _ _
  · exact le_rfl

theorem perform_postponed (scheduler : Scheduler) (id intervalNs : ℕ) (command : Command) :
    (scheduler.postponed id intervalNs).perform command = (scheduler.perform command).postponed id intervalNs := by
  cases command with
  | cancel cancelled =>
    have hany : ((scheduler.postponed id intervalNs).jobs.any fun job => job.id = cancelled) =
        scheduler.jobs.any fun job => job.id = cancelled := by
      simp [Scheduler.postponed, List.any_map, Function.comp_def]
    rw [Scheduler.perform, Scheduler.perform, Scheduler.cancel, Scheduler.cancel, hany]
    split
    · simp [Scheduler.postponed, List.filter_map, Function.comp_def]
    · rfl
  | clear => simp [Scheduler.perform, Scheduler.clear, Scheduler.postponed, Function.comp_def]

theorem foldl_perform_postponed (commands : List Command) (scheduler : Scheduler) (id intervalNs : ℕ) :
    commands.foldl Scheduler.perform (scheduler.postponed id intervalNs) =
      (commands.foldl Scheduler.perform scheduler).postponed id intervalNs := by
  induction commands generalizing scheduler with
  | nil => rfl
  | cons command commands ih => rw [List.foldl_cons, List.foldl_cons, perform_postponed, ih]

/-- Cancelling after the next deadline is set is the same. -/
theorem executeJob_eq (callback : Callback) (scheduler : Scheduler) (job : Job) :
    scheduler.executeJob callback job =
      (callback (scheduler.settle job).executed).foldl Scheduler.perform (scheduler.settle job) := by
  cases hkind : job.kind with
  | once =>
    simp only [Scheduler.executeJob, Scheduler.settle, Scheduler.call, hkind]
    rfl
  | interval intervalNs positive =>
    have hsettle : scheduler.settle job =
        Scheduler.postponed { scheduler with events := scheduler.events ++ [.ran job (scheduler.runs job.id)] }
          job.id intervalNs := by
      simp only [Scheduler.settle, hkind, Scheduler.postponed]
    have hcalled : scheduler.executeJob callback job =
        (scheduler.call callback job).postponed job.id intervalNs := by
      simp only [Scheduler.executeJob, hkind]
      split
      · rfl
      case isFalse hgone =>
        have hsame : ∀ other ∈ (scheduler.call callback job).jobs, postpone job.id intervalNs other = id other := by
          refine fun other hother => postpone_of_ne fun heq => hgone ?_
          exact List.any_eq_true.mpr ⟨other, hother, by simpa using heq⟩
        rw [Scheduler.postponed, List.map_congr_left hsame, List.map_id]
    rw [hcalled, hsettle, foldl_perform_postponed]
    rfl

end Space2.RuntimeScheduler
