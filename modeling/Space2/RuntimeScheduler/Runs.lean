import Space2.RuntimeScheduler.Scheduler

/-!
# Runs of the scheduler

What is recorded of every job matches the table of jobs, before and after every run of a
job. Draining does not depend on how far the time is advanced at once.
-/
namespace Space2.RuntimeScheduler

open Space2.Base StateTransition

variable {scheduler scheduler' : Scheduler} {callback : Callback} {job other : Job}

/-- A job that was never cancelled is where its runs say. -/
def Kept (scheduler : Scheduler) (job : Job) (createdNs : ℕ) : Prop :=
  match job.kind with
  | .once =>
    (job ∈ scheduler.jobs ∧ scheduler.runs job.id = 0) ∨
      (∀ other ∈ scheduler.jobs, other.id ≠ job.id) ∧ scheduler.runs job.id = 1 ∧
        job.deadlineNs ≤ scheduler.nowNs
  | .interval intervalNs _ =>
    createdNs + scheduler.runs job.id * intervalNs ≤ scheduler.nowNs ∧
      ∃ other ∈ scheduler.jobs, other.id = job.id ∧ other.kind = job.kind ∧
        other.deadlineNs = createdNs + (scheduler.runs job.id + 1) * intervalNs

structure Recorded (scheduler : Scheduler) : Prop where
  nodup : (scheduler.jobs.map Job.id).Nodup
  order : ∀ job ∈ scheduler.jobs, job.createdOrder = job.id
  fresh : ∀ job ∈ scheduler.jobs, job.id < scheduler.nextId
  created : ∀ job createdNs, .created job createdNs ∈ scheduler.events → job.id < scheduler.nextId
  ran : ∀ e ∈ scheduler.executed,
    e.1.deadlineNs ≤ scheduler.nowNs ∧ e.1.createdOrder < scheduler.nextId ∧ e.1.id < scheduler.nextId
  sorted : scheduler.executed.Pairwise fun e e' => e.1.key < e'.1.key
  later : ∀ e ∈ scheduler.executed, ∀ job ∈ scheduler.jobs, e.1.key < job.key
  kept : ∀ job createdNs, .created job createdNs ∈ scheduler.events →
    .cancelled job.id ∉ scheduler.events → Kept scheduler job createdNs

theorem create_recorded : Recorded create where
  nodup := List.nodup_nil
  order _ h := by cases h
  fresh _ h := by cases h
  created _ _ h := by cases h
  ran _ h := by cases h
  sorted := List.Pairwise.nil
  later _ h := by cases h
  kept _ _ h := by cases h

theorem Recorded.eq_of_id (hrecorded : Recorded scheduler) (hjob : job ∈ scheduler.jobs)
    (hother : other ∈ scheduler.jobs) (hid : job.id = other.id) : job = other :=
  List.inj_on_of_nodup_map hrecorded.nodup hjob hother hid

/-- No two jobs are as early as each other. -/
theorem Recorded.eq_of_key (hrecorded : Recorded scheduler) (hjob : job ∈ scheduler.jobs)
    (hother : other ∈ scheduler.jobs) (hkey : job.key = other.key) : job = other := by
  have horder : job.createdOrder = other.createdOrder := congrArg (fun key => (ofLex key).2) hkey
  rw [hrecorded.order job hjob, hrecorded.order other hother] at horder
  exact hrecorded.eq_of_id hjob hother horder

theorem executed_append (scheduler : Scheduler) (events : List Event) (jobs : List Job) (nowNs nextId : ℕ) :
    Scheduler.executed ⟨nowNs, nextId, jobs, scheduler.events ++ events⟩ =
      scheduler.executed ++ events.filterMap Event.execution :=
  List.filterMap_append

/-! ## Cancelling -/

def Scheduler.without (scheduler : Scheduler) (gone : List ℕ) : Scheduler :=
  { scheduler with
    jobs := scheduler.jobs.filter fun job => job.id ∉ gone
    events := scheduler.events ++ gone.map .cancelled }

@[simp] theorem executed_without (scheduler : Scheduler) (gone : List ℕ) :
    (scheduler.without gone).executed = scheduler.executed := by
  have hnone : (gone.map Event.cancelled).filterMap Event.execution = [] := by
    rw [List.filterMap_map]
    exact List.filterMap_eq_nil_iff.mpr fun _ _ => rfl
  rw [Scheduler.without, executed_append, hnone, List.append_nil]

@[simp] theorem runs_without (scheduler : Scheduler) (gone : List ℕ) (id : ℕ) :
    (scheduler.without gone).runs id = scheduler.runs id := by
  rw [Scheduler.runs, executed_without, Scheduler.runs]

theorem mem_without {gone : List ℕ} :
    job ∈ (scheduler.without gone).jobs ↔ job ∈ scheduler.jobs ∧ job.id ∉ gone := by
  simp [Scheduler.without]

theorem perform_eq (scheduler : Scheduler) (command : Command) :
    ∃ gone, scheduler.perform command = scheduler.without gone := by
  cases command with
  | cancel id =>
    rw [Scheduler.perform, Scheduler.cancel]
    split
    · exact ⟨[id], by simp [Scheduler.without]⟩
    · exact ⟨[], by simp [Scheduler.without]⟩
  | clear =>
    refine ⟨scheduler.jobs.map Job.id, ?_⟩
    have hnone : scheduler.jobs.filter (fun job => job.id ∉ scheduler.jobs.map Job.id) = [] := by
      refine List.filter_eq_nil_iff.mpr fun job hjob => ?_
      simpa using ⟨job, hjob, rfl⟩
    rw [Scheduler.perform, Scheduler.clear, Scheduler.without, hnone, List.map_map]
    rfl

theorem Kept.without {createdNs : ℕ} {gone : List ℕ} (hkept : Kept scheduler job createdNs)
    (hnot : job.id ∉ gone) : Kept (scheduler.without gone) job createdNs := by
  cases hkind : job.kind with
  | once =>
    simp only [Kept, hkind, runs_without] at hkept ⊢
    refine hkept.imp (fun h => ⟨mem_without.mpr ⟨h.1, hnot⟩, h.2⟩) fun h => ⟨fun other hother => ?_, h.2⟩
    exact h.1 other (mem_without.mp hother).1
  | interval intervalNs positive =>
    simp only [Kept, hkind, runs_without] at hkept ⊢
    obtain ⟨hnow, other, hmem, hid, hrest⟩ := hkept
    exact ⟨hnow, other, mem_without.mpr ⟨hmem, hid ▸ hnot⟩, hid, hrest⟩

theorem Recorded.without (hrecorded : Recorded scheduler) (gone : List ℕ) : Recorded (scheduler.without gone) where
  nodup := hrecorded.nodup.sublist (List.Sublist.map _ List.filter_sublist)
  order job hjob := hrecorded.order job (mem_without.mp hjob).1
  fresh job hjob := hrecorded.fresh job (mem_without.mp hjob).1
  created job createdNs hmem := by
    refine hrecorded.created job createdNs ?_
    simpa [Scheduler.without] using hmem
  ran e he := hrecorded.ran e (executed_without scheduler gone ▸ he)
  sorted := by
    rw [executed_without]
    exact hrecorded.sorted
  later e he job hjob := hrecorded.later e (executed_without scheduler gone ▸ he) job (mem_without.mp hjob).1
  kept job createdNs hmem hnot := by
    have hmem : .created job createdNs ∈ scheduler.events := by simpa [Scheduler.without] using hmem
    have hnot : .cancelled job.id ∉ scheduler.events ∧ job.id ∉ gone := by
      simpa [Scheduler.without] using hnot
    exact (hrecorded.kept job createdNs hmem hnot.1).without hnot.2

theorem Recorded.perform (hrecorded : Recorded scheduler) (command : Command) :
    Recorded (scheduler.perform command) := by
  obtain ⟨gone, heq⟩ := perform_eq scheduler command
  rw [heq]
  exact hrecorded.without gone

theorem Recorded.foldl_perform (hrecorded : Recorded scheduler) (commands : List Command) :
    Recorded (commands.foldl Scheduler.perform scheduler) := by
  induction commands generalizing scheduler with
  | nil => exact hrecorded
  | cons command commands ih => exact ih (hrecorded.perform command)

/-! ## Running a job -/

theorem executed_settle (scheduler : Scheduler) (job : Job) :
    (scheduler.settle job).executed = scheduler.executed ++ [(job, scheduler.runs job.id)] := by
  rw [Scheduler.settle, executed_append]
  rfl

theorem runs_settle (scheduler : Scheduler) (job : Job) (id : ℕ) :
    (scheduler.settle job).runs id = scheduler.runs id + if job.id = id then 1 else 0 := by
  rw [Scheduler.runs, executed_settle, List.countP_append, List.countP_singleton]
  simp only [decide_eq_true_eq]
  rfl

theorem mem_settle_once (hkind : job.kind = .once) :
    other ∈ (scheduler.settle job).jobs ↔ other ∈ scheduler.jobs ∧ other.id ≠ job.id := by
  simp [Scheduler.settle, hkind]

theorem mem_settle_interval {intervalNs : ℕ} {positive : 0 < intervalNs}
    (hkind : job.kind = .interval intervalNs positive) :
    other ∈ (scheduler.settle job).jobs ↔ ∃ before ∈ scheduler.jobs, postpone job.id intervalNs before = other := by
  simp [Scheduler.settle, hkind]

/-- Whatever is in the table after a run was there before it, at that time or earlier, and only
later if it is the job itself. -/
theorem before_settle (hmem : job ∈ scheduler.jobs) (hrecorded : Recorded scheduler)
    (hother : other ∈ (scheduler.settle job).jobs) :
    ∃ before ∈ scheduler.jobs, before.id = other.id ∧ before.kind = other.kind ∧
      before.createdOrder = other.createdOrder ∧
      (before = other ∧ other.id ≠ job.id ∨ before = job ∧ job.deadlineNs < other.deadlineNs) := by
  cases hkind : job.kind with
  | once =>
    obtain ⟨hother, hne⟩ := (mem_settle_once hkind).mp hother
    exact ⟨other, hother, rfl, rfl, rfl, .inl ⟨rfl, hne⟩⟩
  | interval intervalNs positive =>
    obtain ⟨before, hbefore, rfl⟩ := (mem_settle_interval hkind).mp hother
    refine ⟨before, hbefore, by simp, by simp, by simp, ?_⟩
    by_cases hid : before.id = job.id
    · obtain rfl := hrecorded.eq_of_id hbefore hmem hid
      refine .inr ⟨rfl, ?_⟩
      rw [postpone, if_pos rfl]
      exact Nat.lt_add_of_pos_right positive
    · exact .inl ⟨(postpone_of_ne hid).symm, by simpa using hid⟩

theorem nodup_settle (hrecorded : Recorded scheduler) : ((scheduler.settle job).jobs.map Job.id).Nodup := by
  cases hkind : job.kind with
  | once =>
    simp only [Scheduler.settle, hkind]
    exact hrecorded.nodup.sublist (List.Sublist.map _ List.filter_sublist)
  | interval intervalNs positive =>
    have hids : Job.id ∘ postpone job.id intervalNs = Job.id := funext fun other => postpone_id _ _ other
    simp only [Scheduler.settle, hkind, List.map_map, hids]
    exact hrecorded.nodup

theorem Kept.settle {createdNs : ℕ} {born : Job} (hkept : Kept scheduler born createdNs)
    (hrecorded : Recorded scheduler) (hmem : job ∈ scheduler.jobs) (hdue : job.deadlineNs ≤ scheduler.nowNs) :
    Kept (scheduler.settle job) born createdNs := by
  have hnow : (scheduler.settle job).nowNs = scheduler.nowNs := rfl
  cases hkind : born.kind with
  | once =>
    simp only [Kept, hkind, runs_settle, hnow] at hkept ⊢
    rcases hkept with ⟨hborn, hruns⟩ | ⟨hgone, hruns, hran⟩
    · by_cases hid : job.id = born.id
      · obtain rfl := hrecorded.eq_of_id hmem hborn hid
        refine .inr ⟨fun other hother => ((mem_settle_once hkind).mp hother).2, ?_, hdue⟩
        rw [if_pos rfl, hruns]
      · refine .inl ⟨?_, by rw [if_neg hid, hruns]⟩
        cases hjob : job.kind with
        | once => exact (mem_settle_once hjob).mpr ⟨hborn, Ne.symm hid⟩
        | interval intervalNs positive =>
          exact (mem_settle_interval hjob).mpr ⟨born, hborn, postpone_of_ne (Ne.symm hid)⟩
    · refine .inr ⟨fun other hother => ?_, ?_, hran⟩
      · obtain ⟨before, hbefore, hid, -⟩ := before_settle hmem hrecorded hother
        rw [← hid]
        exact hgone before hbefore
      · rw [if_neg (hgone job hmem), hruns]
  | interval intervalNs positive =>
    simp only [Kept, hkind, runs_settle, hnow] at hkept ⊢
    obtain ⟨hran, other, hother, hid, hotherKind, hdeadline⟩ := hkept
    by_cases hsame : job.id = born.id
    · obtain rfl := hrecorded.eq_of_id hmem hother (hsame.trans hid.symm)
      rw [if_pos hsame]
      refine ⟨hdeadline ▸ hdue, postpone job.id intervalNs job, ?_, ?_, ?_, ?_⟩
      · exact (mem_settle_interval hotherKind).mpr ⟨job, hmem, rfl⟩
      · rw [postpone_id, hid]
      · rw [postpone_kind, hotherKind]
      · rw [postpone, if_pos rfl]
        dsimp only
        rw [hdeadline, Nat.add_assoc, ← Nat.succ_mul]
    · rw [if_neg hsame, Nat.add_zero]
      refine ⟨hran, other, ?_, hid, hotherKind, hdeadline⟩
      have hne : other.id ≠ job.id := fun heq => hsame (heq.symm.trans hid)
      cases hjob : job.kind with
      | once => exact (mem_settle_once hjob).mpr ⟨hother, hne⟩
      | interval _ _ => exact (mem_settle_interval hjob).mpr ⟨other, hother, postpone_of_ne hne⟩

theorem Recorded.settle (hrecorded : Recorded scheduler) (hsome : scheduler.earliestDueJob = some job) :
    Recorded (scheduler.settle job) := by
  obtain ⟨hmem, hdue, hfirst⟩ := earliestDueJob_some hsome
  have hnew : ∀ e ∈ (scheduler.settle job).executed,
      e ∈ scheduler.executed ∨ e = (job, scheduler.runs job.id) := by
    intro e he
    rw [executed_settle] at he
    simpa using he
  constructor
  case nodup => exact nodup_settle hrecorded
  case order =>
    intro other hother
    obtain ⟨before, hbefore, hid, -, horder, -⟩ := before_settle hmem hrecorded hother
    rw [← horder, ← hid]
    exact hrecorded.order before hbefore
  case fresh =>
    intro other hother
    obtain ⟨before, hbefore, hid, -⟩ := before_settle hmem hrecorded hother
    rw [← hid]
    exact hrecorded.fresh before hbefore
  case created =>
    intro born createdNs hborn
    refine hrecorded.created born createdNs ?_
    simpa [Scheduler.settle] using hborn
  case ran =>
    intro e he
    rcases hnew e he with he | rfl
    · exact hrecorded.ran e he
    · have hfresh := hrecorded.fresh job hmem
      exact ⟨hdue, (hrecorded.order job hmem).trans_lt hfresh, hfresh⟩
  case sorted =>
    rw [executed_settle]
    refine List.pairwise_append.mpr ⟨hrecorded.sorted, List.pairwise_singleton _ _, fun e he e' he' => ?_⟩
    rw [List.mem_singleton.mp he']
    exact hrecorded.later e he job hmem
  case later =>
    intro e he other hother
    obtain ⟨before, hbefore, -, -, horder, hwhen⟩ := before_settle hmem hrecorded hother
    have hle : before.key ≤ other.key := by
      rcases hwhen with ⟨rfl, -⟩ | ⟨rfl, hless⟩
      · exact le_rfl
      · rw [Job.key, Job.key, Prod.Lex.toLex_le_toLex]
        exact .inl hless
    rcases hnew e he with he | rfl
    · exact (hrecorded.later e he before hbefore).trans_le hle
    · rcases hwhen with ⟨rfl, hne⟩ | ⟨rfl, hless⟩
      · refine lt_of_le_of_ne (hfirst before hbefore) fun heq => hne ?_
        rw [hrecorded.eq_of_key hmem hbefore heq]
      · rw [Job.key, Job.key, Prod.Lex.toLex_lt_toLex]
        exact .inl hless
  case kept =>
    intro born createdNs hborn hnot
    have hborn : .created born createdNs ∈ scheduler.events := by simpa [Scheduler.settle] using hborn
    have hnot : .cancelled born.id ∉ scheduler.events := by simpa [Scheduler.settle] using hnot
    exact (hrecorded.kept born createdNs hborn hnot).settle hrecorded hmem hdue

theorem Recorded.next (hrecorded : Recorded scheduler) (hnext : scheduler.next callback = some scheduler') :
    Recorded scheduler' := by
  obtain ⟨job, hsome, rfl⟩ := Option.map_eq_some_iff.mp hnext
  rw [executeJob_eq]
  exact (hrecorded.settle hsome).foldl_perform _

/-! ## Scheduling, and time passing -/

theorem Kept.inserted {createdNs delayNs : ℕ} {kind : Kind} (hkept : Kept scheduler job createdNs)
    (hold : job.id < scheduler.nextId) : Kept (scheduler.insertJob kind delayNs) job createdNs := by
  have hruns : ∀ id, (scheduler.insertJob kind delayNs).runs id = scheduler.runs id := by
    intro id
    rw [Scheduler.runs, Scheduler.insertJob, executed_append]
    simp [Event.execution, Scheduler.runs]
  have hmem : ∀ other ∈ scheduler.jobs, other ∈ (scheduler.insertJob kind delayNs).jobs := fun _ h =>
    List.mem_append_left _ h
  have hnow : (scheduler.insertJob kind delayNs).nowNs = scheduler.nowNs := rfl
  cases hkind : job.kind with
  | once =>
    simp only [Kept, hkind, hruns, hnow] at hkept ⊢
    refine hkept.imp (fun h => ⟨hmem job h.1, h.2⟩) fun h => ⟨fun other hother => ?_, h.2⟩
    rcases List.mem_append.mp hother with hother | hother
    · exact h.1 other hother
    · rw [List.mem_singleton.mp hother]
      exact Nat.ne_of_gt hold
  | interval intervalNs positive =>
    simp only [Kept, hkind, hruns, hnow] at hkept ⊢
    obtain ⟨hran, other, hother, hrest⟩ := hkept
    exact ⟨hran, other, hmem other hother, hrest⟩

theorem Recorded.runs_fresh (hrecorded : Recorded scheduler) : scheduler.runs scheduler.nextId = 0 := by
  refine List.countP_eq_zero.mpr fun e he => ?_
  have hless := (hrecorded.ran e he).2.2
  simpa using Nat.ne_of_lt hless

/-- An interval job waits its interval first. -/
theorem Recorded.insertJob (hrecorded : Recorded scheduler) (kind : Kind) (delayNs : ℕ)
    (hdelay : ∀ intervalNs positive, kind = .interval intervalNs positive → delayNs = intervalNs) :
    Recorded (scheduler.insertJob kind delayNs) := by
  have hexecuted : (scheduler.insertJob kind delayNs).executed = scheduler.executed := by
    rw [Scheduler.insertJob, executed_append]
    exact List.append_nil _
  have hjobs : ∀ job ∈ (scheduler.insertJob kind delayNs).jobs,
      job ∈ scheduler.jobs ∨ job = ⟨scheduler.nextId, kind, scheduler.nowNs + delayNs, scheduler.nextId⟩ := by
    intro job hjob
    simpa [Scheduler.insertJob] using hjob
  have hcreated : ∀ job createdNs, .created job createdNs ∈ (scheduler.insertJob kind delayNs).events →
      .created job createdNs ∈ scheduler.events ∨
        job = ⟨scheduler.nextId, kind, scheduler.nowNs + delayNs, scheduler.nextId⟩ ∧ createdNs = scheduler.nowNs := by
    intro job createdNs hmem
    simpa [Scheduler.insertJob] using hmem
  constructor
  case nodup =>
    have hnot : scheduler.nextId ∉ scheduler.jobs.map Job.id := by
      intro hmem
      obtain ⟨job, hjob, hid⟩ := List.mem_map.mp hmem
      exact Nat.ne_of_lt (hrecorded.fresh job hjob) hid
    have hids : (scheduler.insertJob kind delayNs).jobs.map Job.id =
        scheduler.jobs.map Job.id ++ [scheduler.nextId] := List.map_append
    rw [hids]
    exact List.nodup_append_comm.mp (List.nodup_cons.mpr ⟨hnot, hrecorded.nodup⟩)
  case order =>
    intro job hjob
    rcases hjobs job hjob with hjob | rfl
    · exact hrecorded.order job hjob
    · rfl
  case fresh =>
    intro job hjob
    rcases hjobs job hjob with hjob | rfl
    · exact Nat.lt_succ_of_lt (hrecorded.fresh job hjob)
    · exact Nat.lt_succ_self _
  case created =>
    intro job createdNs hmem
    rcases hcreated job createdNs hmem with hmem | ⟨rfl, -⟩
    · exact Nat.lt_succ_of_lt (hrecorded.created job createdNs hmem)
    · exact Nat.lt_succ_self _
  case ran =>
    intro e he
    rw [hexecuted] at he
    obtain ⟨hdue, horder, hid⟩ := hrecorded.ran e he
    exact ⟨hdue, Nat.lt_succ_of_lt horder, Nat.lt_succ_of_lt hid⟩
  case sorted =>
    rw [hexecuted]
    exact hrecorded.sorted
  case later =>
    intro e he job hjob
    rw [hexecuted] at he
    rcases hjobs job hjob with hjob | rfl
    · exact hrecorded.later e he job hjob
    · obtain ⟨hdue, horder, -⟩ := hrecorded.ran e he
      rw [Job.key, Job.key, Prod.Lex.toLex_lt_toLex]
      dsimp only
      omega
  case kept =>
    intro job createdNs hmem hnot
    have hnot : .cancelled job.id ∉ scheduler.events := by simpa [Scheduler.insertJob] using hnot
    rcases hcreated job createdNs hmem with hmem | ⟨rfl, rfl⟩
    · exact (hrecorded.kept job createdNs hmem hnot).inserted (hrecorded.created job createdNs hmem)
    · have hself : ⟨scheduler.nextId, kind, scheduler.nowNs + delayNs, scheduler.nextId⟩ ∈
          (scheduler.insertJob kind delayNs).jobs := List.mem_append_right _ (List.mem_singleton_self _)
      have hruns : (scheduler.insertJob kind delayNs).runs scheduler.nextId = 0 := by
        rw [Scheduler.runs, hexecuted]
        exact hrecorded.runs_fresh
      cases kind with
      | once => exact .inl ⟨hself, hruns⟩
      | interval intervalNs positive =>
        obtain rfl := hdelay intervalNs positive rfl
        refine ⟨?_, _, hself, rfl, rfl, ?_⟩
        · rw [hruns, Nat.zero_mul]
          exact le_rfl
        · rw [hruns, Nat.zero_add, Nat.one_mul]

def Scheduler.at (scheduler : Scheduler) (nowNs : ℕ) : Scheduler := { scheduler with nowNs := nowNs }

theorem Recorded.at {nowNs : ℕ} (hrecorded : Recorded scheduler) (hnow : scheduler.nowNs ≤ nowNs) :
    Recorded (scheduler.at nowNs) where
  nodup := hrecorded.nodup
  order := hrecorded.order
  fresh := hrecorded.fresh
  created := hrecorded.created
  ran e he := ⟨(hrecorded.ran e he).1.trans hnow, (hrecorded.ran e he).2⟩
  sorted := hrecorded.sorted
  later := hrecorded.later
  kept job createdNs hmem hnot := by
    have hkept := hrecorded.kept job createdNs hmem hnot
    cases hkind : job.kind with
    | once =>
      simp only [Kept, hkind] at hkept ⊢
      exact hkept.imp_right fun h => ⟨h.1, h.2.1, h.2.2.trans hnow⟩
    | interval intervalNs positive =>
      simp only [Kept, hkind] at hkept ⊢
      exact ⟨hkept.1.trans hnow, hkept.2⟩

/-! ## Draining -/

@[simp] theorem nowNs_perform (scheduler : Scheduler) (command : Command) :
    (scheduler.perform command).nowNs = scheduler.nowNs := by
  obtain ⟨gone, heq⟩ := perform_eq scheduler command
  rw [heq]
  rfl

theorem perform_at (scheduler : Scheduler) (command : Command) (nowNs : ℕ) :
    (scheduler.at nowNs).perform command = (scheduler.perform command).at nowNs := by
  cases command with
  | cancel id =>
    have hjobs : (scheduler.at nowNs).jobs = scheduler.jobs := rfl
    rw [Scheduler.perform, Scheduler.perform, Scheduler.cancel, Scheduler.cancel, hjobs]
    split <;> rfl
  | clear => rfl

theorem foldl_perform_at (commands : List Command) (scheduler : Scheduler) (nowNs : ℕ) :
    commands.foldl Scheduler.perform (scheduler.at nowNs) =
      (commands.foldl Scheduler.perform scheduler).at nowNs := by
  induction commands generalizing scheduler with
  | nil => rfl
  | cons command commands ih => rw [List.foldl_cons, List.foldl_cons, perform_at, ih]

theorem nowNs_foldl_perform (commands : List Command) (scheduler : Scheduler) :
    (commands.foldl Scheduler.perform scheduler).nowNs = scheduler.nowNs := by
  induction commands generalizing scheduler with
  | nil => rfl
  | cons command commands ih => rw [List.foldl_cons, ih, nowNs_perform]

theorem nowNs_next (hnext : scheduler.next callback = some scheduler') : scheduler'.nowNs = scheduler.nowNs := by
  obtain ⟨job, -, rfl⟩ := Option.map_eq_some_iff.mp hnext
  rw [executeJob_eq, nowNs_foldl_perform]
  rfl

/-- A job that is next stays next when more time has passed. -/
theorem next_at (hrecorded : Recorded scheduler) (hnext : scheduler.next callback = some scheduler') {nowNs : ℕ}
    (hnow : scheduler.nowNs ≤ nowNs) : (scheduler.at nowNs).next callback = some (scheduler'.at nowNs) := by
  obtain ⟨job, hsome, rfl⟩ := Option.map_eq_some_iff.mp hnext
  obtain ⟨hmem, hdue, hfirst⟩ := earliestDueJob_some hsome
  have hsome' : (scheduler.at nowNs).earliestDueJob = some job := by
    cases hcase : (scheduler.at nowNs).earliestDueJob with
    | none => exact absurd (earliestDueJob_none hcase job hmem) (Nat.not_lt.mpr (hdue.trans hnow))
    | some other =>
      obtain ⟨hother, -, hfirst'⟩ := earliestDueJob_some hcase
      have hkey := le_antisymm (hfirst' job hmem) (hfirst other hother)
      rw [hrecorded.eq_of_key hother hmem hkey]
  have hsettle : (scheduler.at nowNs).settle job = (scheduler.settle job).at nowNs := rfl
  rw [Scheduler.next, hsome', Option.map_some, executeJob_eq, executeJob_eq, hsettle, foldl_perform_at]
  rfl

theorem work_without_le (scheduler : Scheduler) (gone : List ℕ) :
    (scheduler.without gone).work ≤ scheduler.work :=
  List.Sublist.sum_le_sum (List.Sublist.map _ List.filter_sublist) fun _ _ => Nat.zero_le _

theorem work_foldl_perform_le (commands : List Command) (scheduler : Scheduler) :
    (commands.foldl Scheduler.perform scheduler).work ≤ scheduler.work := by
  induction commands generalizing scheduler with
  | nil => exact le_rfl
  | cons command commands ih =>
    obtain ⟨gone, heq⟩ := perform_eq scheduler command
    rw [List.foldl_cons, heq]
    exact (ih _).trans (work_without_le scheduler gone)

theorem sum_filter_lt {jobs : List Job} {weight : Job → ℕ} {keep : Job → Bool} (hmem : job ∈ jobs)
    (hout : keep job = false) (hpositive : 0 < weight job) :
    ((jobs.filter keep).map weight).sum < (jobs.map weight).sum := by
  induction jobs with
  | nil => cases hmem
  | cons first jobs ih =>
    have hrest : ((jobs.filter keep).map weight).sum ≤ (jobs.map weight).sum :=
      List.Sublist.sum_le_sum (List.Sublist.map _ List.filter_sublist) fun _ _ => Nat.zero_le _
    rw [List.filter_cons]
    rcases List.mem_cons.mp hmem with rfl | hmem
    · rw [hout, if_neg (by simp), List.map_cons, List.sum_cons]
      omega
    · have hless := ih hmem
      split
      · rw [List.map_cons, List.sum_cons, List.map_cons, List.sum_cons]
        omega
      · rw [List.map_cons, List.sum_cons]
        omega

theorem dueRuns_postpone (nowNs : ℕ) {intervalNs : ℕ} {positive : 0 < intervalNs}
    (hkind : job.kind = .interval intervalNs positive) (hdue : job.deadlineNs ≤ nowNs) :
    (postpone job.id intervalNs job).dueRuns nowNs < job.dueRuns nowNs := by
  rw [postpone, if_pos rfl, Job.dueRuns, Job.dueRuns, if_pos hdue]
  simp only [hkind]
  split
  case isTrue hagain =>
    have hsplit : nowNs - job.deadlineNs = nowNs - (job.deadlineNs + intervalNs) + intervalNs := by omega
    rw [hsplit, Nat.add_div_right _ positive]
    exact Nat.lt_succ_self _
  case isFalse => exact Nat.succ_pos _

theorem work_settle_lt (hrecorded : Recorded scheduler) (hsome : scheduler.earliestDueJob = some job) :
    (scheduler.settle job).work < scheduler.work := by
  obtain ⟨hmem, hdue, -⟩ := earliestDueJob_some hsome
  rw [Scheduler.work, Scheduler.work]
  cases hkind : job.kind with
  | once =>
    have hone : 0 < job.dueRuns scheduler.nowNs := by
      rw [Job.dueRuns, if_pos hdue]
      simp only [hkind]
      exact Nat.one_pos
    simp only [Scheduler.settle, hkind]
    exact sum_filter_lt hmem (by simp) hone
  | interval intervalNs positive =>
    simp only [Scheduler.settle, hkind, List.map_map]
    have hless := dueRuns_postpone scheduler.nowNs hkind hdue
    refine List.sum_lt_sum _ _ (fun other hother => ?_) ⟨job, hmem, hless⟩
    by_cases hid : other.id = job.id
    · obtain rfl := hrecorded.eq_of_id hother hmem hid
      exact hless.le
    · rw [Function.comp_apply, postpone_of_ne hid]

theorem work_next_lt (hrecorded : Recorded scheduler) (hnext : scheduler.next callback = some scheduler') :
    scheduler'.work < scheduler.work := by
  obtain ⟨job, hsome, rfl⟩ := Option.map_eq_some_iff.mp hnext
  rw [executeJob_eq]
  exact (work_foldl_perform_le _ _).trans_lt (work_settle_lt hrecorded hsome)

/-- Draining ends, with no job due. -/
theorem drained (hrecorded : Recorded scheduler) : (scheduler.drainDue callback).next callback = none :=
  step_drain (fun _ _ h hnext => Recorded.next h hnext) (fun _ _ h hnext => work_next_lt h hnext) _ hrecorded le_rfl

theorem drainDue_recorded (hrecorded : Recorded scheduler) : Recorded (scheduler.drainDue callback) :=
  reaches_kept (fun _ _ h hnext => Recorded.next h hnext) (reaches_drain _ _) hrecorded

theorem nowNs_drainDue (callback : Callback) (scheduler : Scheduler) :
    (scheduler.drainDue callback).nowNs = scheduler.nowNs :=
  reaches_kept (I := fun other : Scheduler => other.nowNs = scheduler.nowNs)
    (fun _ _ h hnext => (nowNs_next hnext).trans h) (reaches_drain _ _) rfl

theorem Recorded.advance (hrecorded : Recorded scheduler) (duration : ℕ) :
    Recorded (scheduler.advance callback duration) :=
  drainDue_recorded (hrecorded.at (Nat.le_add_right _ _))

/-- Advancing twice is advancing once. -/
theorem advance_advance (hrecorded : Recorded scheduler) (first second : ℕ) :
    (scheduler.advance callback first).advance callback second = scheduler.advance callback (first + second) := by
  have hstart : Recorded (scheduler.at (scheduler.nowNs + first)) := hrecorded.at (Nat.le_add_right _ _)
  have hnow : (scheduler.advance callback first).nowNs = scheduler.nowNs + first := nowNs_drainDue callback _
  let target := scheduler.nowNs + (first + second)
  have hpath : Reaches (Scheduler.next callback) (scheduler.at (scheduler.nowNs + first))
      (scheduler.advance callback first) := reaches_drain _ _
  have hfirst : Reaches (Scheduler.next callback) ((scheduler.at (scheduler.nowNs + first)).at target)
      ((scheduler.advance callback first).at target) := by
    refine reaches_map (I := fun other => Recorded other ∧ other.nowNs = scheduler.nowNs + first)
      (fun other => other.at target) (fun _ _ h hnext => ?_) (fun _ _ h hnext => ?_) hpath ⟨hstart, rfl⟩
    · exact ⟨h.1.next hnext, (nowNs_next hnext).trans h.2⟩
    · have hlater : scheduler.nowNs + first ≤ target := by omega
      exact next_at h.1 hnext (h.2 ▸ hlater)
  have hsecond : (scheduler.advance callback first).advance callback second =
      ((scheduler.advance callback first).at target).drainDue callback := by
    rw [Scheduler.advance, hnow, Nat.add_assoc]
    rfl
  have hagain : Recorded ((scheduler.advance callback first).at target) :=
    (hrecorded.advance first).at (by rw [hnow]; omega)
  rw [hsecond]
  exact eq_of_reaches (hfirst.trans (reaches_drain _ _)) (drained hagain) (reaches_drain _ _)
    (drained (hrecorded.at (Nat.le_add_right _ _)))

end Space2.RuntimeScheduler

/-!
# Splitting time

A program schedules and cancels jobs and advances the time. Advancing in several steps
runs the same jobs in the same order, and at the end of it every job that was not
cancelled has run as often as its deadlines say.
-/
namespace Space2.RuntimeScheduler

variable {scheduler : Scheduler} {callback : Callback}

inductive Op
  | scheduleOnce (delayNs : ℕ)
  | scheduleEvery (intervalNs : ℕ)
  | cancel (id : ℕ)
  | clear
  | advance (duration : ℕ)

def Scheduler.apply (callback : Callback) (scheduler : Scheduler) : Op → Scheduler
  | .scheduleOnce delayNs => scheduler.scheduleOnce delayNs
  | .scheduleEvery intervalNs => (scheduler.scheduleEvery intervalNs).toOption.getD scheduler
  | .cancel id => scheduler.cancel id
  | .clear => scheduler.clear
  | .advance duration => scheduler.advance callback duration

def run (callback : Callback) (ops : List Op) : Scheduler := ops.foldl (Scheduler.apply callback) create

/-- The second program advances in more steps. -/
inductive Splits : List Op → List Op → Prop
  | nil : Splits [] []
  | same (op : Op) {ops ops' : List Op} : Splits ops ops' → Splits (op :: ops) (op :: ops')
  | split {durations : List ℕ} {ops ops' : List Op} : durations ≠ [] → Splits ops ops' →
      Splits (.advance durations.sum :: ops) (durations.map .advance ++ ops')

theorem Recorded.apply (hrecorded : Recorded scheduler) (op : Op) : Recorded (scheduler.apply callback op) := by
  cases op with
  | scheduleOnce delayNs => exact hrecorded.insertJob _ _ fun _ _ h => by cases h
  | scheduleEvery intervalNs =>
    rw [Scheduler.apply, Scheduler.scheduleEvery]
    split
    · exact hrecorded
    · exact hrecorded.insertJob _ _ fun _ _ h => by cases h; rfl
  | cancel id => exact hrecorded.perform (.cancel id)
  | clear => exact hrecorded.perform .clear
  | advance duration => exact hrecorded.advance duration

theorem foldl_recorded (ops : List Op) (hrecorded : Recorded scheduler) :
    Recorded (ops.foldl (Scheduler.apply callback) scheduler) := by
  induction ops generalizing scheduler with
  | nil => exact hrecorded
  | cons op ops ih => exact ih (hrecorded.apply op)

theorem foldl_advance (durations : List ℕ) (hsome : durations ≠ []) (hrecorded : Recorded scheduler) :
    (durations.map Op.advance).foldl (Scheduler.apply callback) scheduler =
      scheduler.advance callback durations.sum := by
  induction durations generalizing scheduler with
  | nil => exact absurd rfl hsome
  | cons first durations ih =>
    rw [List.map_cons, List.foldl_cons, List.sum_cons]
    by_cases hlast : durations = []
    · subst hlast
      rfl
    · rw [ih hlast (hrecorded.apply _)]
      exact advance_advance hrecorded first durations.sum

theorem foldl_splits {ops ops' : List Op} (hsplits : Splits ops ops') (hrecorded : Recorded scheduler) :
    ops'.foldl (Scheduler.apply callback) scheduler = ops.foldl (Scheduler.apply callback) scheduler := by
  induction hsplits generalizing scheduler with
  | nil => rfl
  | same op _ ih => exact ih (hrecorded.apply op)
  | split hsome _ ih =>
    rw [List.foldl_append, foldl_advance _ hsome hrecorded]
    exact ih (hrecorded.advance _)

theorem not_due (hrecorded : Recorded scheduler) (duration : ℕ) :
    ∀ job ∈ (scheduler.advance callback duration).jobs,
      (scheduler.advance callback duration).nowNs < job.deadlineNs := by
  have hdrained : (scheduler.advance callback duration).next callback = none :=
    drained (hrecorded.at (Nat.le_add_right _ _))
  exact earliestDueJob_none (Option.map_eq_none_iff.mp hdrained)

/-- How often a job created at `createdNs` has to have run by now. -/
def Job.expectedRuns (job : Job) (createdNs nowNs : ℕ) : ℕ :=
  match job.kind with
  | .once => if job.deadlineNs ≤ nowNs then 1 else 0
  | .interval intervalNs _ => (nowNs - createdNs) / intervalNs

theorem Kept.runs_eq {job : Job} {createdNs : ℕ} (hkept : Kept scheduler job createdNs)
    (hlate : ∀ job ∈ scheduler.jobs, scheduler.nowNs < job.deadlineNs) :
    scheduler.runs job.id = job.expectedRuns createdNs scheduler.nowNs := by
  cases hkind : job.kind with
  | once =>
    simp only [Kept, hkind, Job.expectedRuns] at hkept ⊢
    rcases hkept with ⟨hmem, hruns⟩ | ⟨-, hruns, hdue⟩
    · rw [hruns, if_neg (Nat.not_le.mpr (hlate job hmem))]
    · rw [hruns, if_pos hdue]
  | interval intervalNs positive =>
    simp only [Kept, hkind, Job.expectedRuns] at hkept ⊢
    obtain ⟨hran, other, hmem, -, -, hdeadline⟩ := hkept
    have hnext := hlate other hmem
    rw [hdeadline] at hnext
    refine (Nat.div_eq_of_lt_le ?_ ?_).symm
    · omega
    · omega

/-- A job every two nanoseconds, cancelled by a job due at five, advanced by seven at once. -/
example : (run (fun executed => if executed.getLast?.any fun e => e.1.id = 2 then [.cancel 1] else [])
    [.scheduleEvery 2, .scheduleOnce 5, .advance 7]).executed.map (fun e => (e.1.id, e.2)) =
      [(1, 0), (1, 1), (2, 0)] := by
  decide

end Space2.RuntimeScheduler
