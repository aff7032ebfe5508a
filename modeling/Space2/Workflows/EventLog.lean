import Space2.Workflows.StepResets

/-!
# What the event log tells

Every update of a step is followed by the event that names its new status, with one exception: a
reset writes no event. So the log tells the status of every step, unless the step was reset and is
ready again while the log still says that it is done.
-/
namespace Space2.Workflows
open Base Base.Durable

variable {definition : Definition} {executor : Executor} {s : State} {id : String}

/-- The step an event is about and the status it gives it. -/
def Event.tells : Event → Option (String × StepStatus)
  | .stepReady id => some (id, .ready)
  | .stepStarted id _ => some (id, .running)
  | .stepSucceeded id => some (id, .succeeded)
  | .stepSkipped id _ _ => some (id, .skipped)
  | .stepWaiting id _ => some (id, .waiting)
  | .stepRetried id _ _ => some (id, .ready)
  | .stepFailed id _ => some (id, .failed)
  | .stepCancelled id _ => some (id, .cancelled)
  | .runCreated | .runStarted | .runFailed _ | .runCancelled _ | .runWaiting | .runSucceeded => none

def tell (statuses : String → StepStatus) (event : Event) : String → StepStatus :=
  match event.tells with
  | some (id, status) => Function.update statuses id status
  | none => statuses

/-- The statuses that the events give the steps, which are pending at first. -/
def replay (events : List Event) : String → StepStatus := events.foldl tell fun _ => .pending

theorem replay_concat (events : List Event) (event : Event) :
    replay (events ++ [event]) = tell (replay events) event := List.foldl_concat ..

theorem tell_self {statuses : String → StepStatus} {event : Event} {status : StepStatus}
    (h : event.tells = some (id, status)) : tell statuses event id = status := by
  simp [tell, h]

theorem tell_other {statuses : String → StepStatus} {event : Event}
    (h : ∀ status, event.tells ≠ some (id, status)) : tell statuses event id = statuses id := by
  unfold tell
  cases htells : event.tells with
  | none => rfl
  | some told =>
    have hne : id ≠ told.1 := by
      rintro rfl
      exact h told.2 htells
    exact Function.update_of_ne hne ..

/-- The log agrees with the step, or the step was reset. -/
def Told (events : List Event) (id : String) (status : StepStatus) : Prop :=
  status = replay events id ∨ status = .ready ∧ terminalSuccess (replay events id) = true

/-- The log tells the status of every step of the run. -/
def LogTells (s : State) : Prop :=
  ∀ id held, s.run.step id = some held → Told s.run.events id held.status

section Writes

theorem LogTells.appendEvent (h : LogTells s) {event : Event} (hevent : event.tells = none) :
    LogTells (s.appendEvent event) := by
  intro id held hheld
  have hreplay : replay (s.run.events ++ [event]) id = replay s.run.events id := by
    rw [replay_concat, tell_other fun status hstatus => by simp [hevent] at hstatus]
  have htold := h id held hheld
  rwa [Told, ← hreplay] at htold

/-- An update of a step and the event that tells it. -/
theorem LogTells.update (h : LogTells s) {updates : StepUpdate} {event : Event}
    (hevent : event.tells = some (id, updates.status)) :
    LogTells ((s.upsertStep id updates).appendEvent event) := by
  intro other held hheld
  change (s.run.upsertStep id updates).step other = some held at hheld
  change Told (s.run.events ++ [event]) other held.status
  rw [Told, replay_concat]
  by_cases hother : other = id
  · subst hother
    rw [Run.step_upsertStep_self] at hheld
    obtain rfl := Option.some.inj hheld
    exact .inl (tell_self hevent).symm
  · rw [Run.step_upsertStep_ne hother] at hheld
    have hquiet : ∀ status, event.tells ≠ some (other, status) := by
      intro status hstatus
      rw [hevent] at hstatus
      exact hother (Prod.mk.inj (Option.some.inj hstatus)).1.symm
    rw [tell_other hquiet]
    exact h other held hheld

/-- A reset is not told. -/
theorem LogTells.reset (h : LogTells s)
    (hdone : (s.run.status? id).any terminalSuccess = true) :
    LogTells (s.upsertStep id { status := .ready }) := by
  intro other held hheld
  change (s.run.upsertStep id { status := .ready }).step other = some held at hheld
  by_cases hother : other = id
  · subst hother
    rw [Run.step_upsertStep_self] at hheld
    obtain rfl := Option.some.inj hheld
    cases hbefore : s.run.step other with
    | none => simp [Run.status?, hbefore] at hdone
    | some before =>
      rw [Run.status?, hbefore, Option.map_some, Option.any_some] at hdone
      refine .inr ⟨rfl, ?_⟩
      obtain htold | ⟨hready, -⟩ := h other before hbefore
      · exact htold ▸ hdone
      · simp [hready, terminalSuccess] at hdone
  · rw [Run.step_upsertStep_ne hother] at hheld
    exact h other held hheld

end Writes

section Programs

theorem keeps_appendEvent {event : Event} (hevent : event.tells = none) :
    Keeps LogTells (appendEvent event) := keeps_write fun _ h => h.appendEvent hevent

theorem keeps_updateRunStatus {status : RunStatus} {output error : Option Lua} :
    Keeps LogTells (updateRunStatus status output error) := keeps_write fun _ h => h

theorem stepUpdate_final {updates : StepUpdate} :
    (∃ e, (stepUpdate definition id updates s).result = .error e ∧
      (stepUpdate definition id updates).final s = s) ∨
    (stepUpdate definition id updates s).result = .ok () ∧
      (stepUpdate definition id updates).final s = s.upsertStep id updates := by
  unfold stepUpdate ensure
  split_ifs with hknown
  · exact .inr ⟨rfl, rfl⟩
  · exact .inl ⟨_, rfl, rfl⟩

/-- An update of a step may be refused, and then nothing follows. -/
theorem keeps_stepUpdate {updates : StepUpdate} {rest : Runner Unit}
    (hrest : ∀ s, LogTells s → LogTells (rest.final (s.upsertStep id updates))) :
    Keeps LogTells (do stepUpdate definition id updates; rest) := by
  intro s hs
  obtain ⟨e, herror, hfinal⟩ | ⟨a, hresult, hfinal⟩ :=
    @bind_final _ _ _ _ _ _ (stepUpdate definition id updates) (fun _ => rest) s
  · obtain ⟨-, -, hsame⟩ | ⟨hok, -⟩ := @stepUpdate_final definition s id updates
    · rwa [hfinal, hsame]
    · rw [herror] at hok
      cases hok
  · obtain ⟨e, herror, -⟩ | ⟨-, hwritten⟩ := @stepUpdate_final definition s id updates
    · rw [hresult] at herror
      cases herror
    · rw [hfinal, hwritten]
      exact hrest s hs

theorem keeps_told {updates : StepUpdate} {event : Event}
    (hevent : event.tells = some (id, updates.status)) :
    Keeps LogTells (do stepUpdate definition id updates; appendEvent event) :=
  keeps_stepUpdate fun _ hs => hs.update hevent

/-- An update that is told at once keeps the log telling, whatever comes after. -/
theorem keeps_told_bind {updates : StepUpdate} {event : Event} {rest : Runner Unit}
    (hevent : event.tells = some (id, updates.status)) (hrest : Keeps LogTells rest) :
    Keeps LogTells (do stepUpdate definition id updates; appendEvent event; rest) :=
  keeps_stepUpdate fun _ hs => hrest _ (hs.update hevent)

theorem keeps_markReadySteps : Keeps LogTells (markReadySteps definition) :=
  keeps_forM fun _ _ => keeps_bind keeps_query fun _ => keeps_ite (keeps_told rfl) keeps_pure

theorem keeps_skipSubgraph (fuel : Nat) (id source : String) :
    Keeps LogTells (skipSubgraph definition fuel id source) := by
  induction fuel generalizing id source with
  | zero => exact keeps_pure
  | succ fuel ih =>
    refine keeps_bind keeps_query fun skips => keeps_ite ?_ keeps_pure
    exact keeps_told_bind rfl (keeps_forM fun edge _ => ih edge.targetStepId id)

theorem keeps_skipUnselectedTargets (source : String) (selection : Selection) :
    Keeps LogTells (skipUnselectedTargets definition source selection) := by
  cases selection with
  | all => exact keeps_pure
  | only ids =>
    refine keeps_forM fun edge _ => keeps_ite keeps_pure ?_
    exact keeps_bind keeps_query fun fuel => keeps_skipSubgraph fuel edge.targetStepId source

theorem keeps_resetTarget {source : String} {selected : Selection} {edge : Edge} :
    Keeps LogTells (resetTarget definition source selected edge) := by
  refine keeps_query_bind fun s resets hs hresets => ?_
  split_ifs with htrue
  · rw [← Except.ok.inj hresets] at htrue
    obtain ⟨-, hdone⟩ := of_decide_eq_true htrue
    obtain ⟨-, -, hsame⟩ | ⟨-, hwritten⟩ :=
      @stepUpdate_final definition s edge.targetStepId { status := .ready }
    · rwa [hsame]
    · rw [hwritten]
      exact hs.reset hdone
  · exact hs

theorem keeps_failStep {outcome : Outcome} : Keeps LogTells (failStep definition id outcome) :=
  keeps_told rfl

theorem keeps_applySuccess {outcome : Outcome} :
    Keeps LogTells (applySuccess definition id outcome) :=
  keeps_told_bind rfl (keeps_bind (keeps_skipUnselectedTargets id _) fun _ =>
    keeps_forM fun _ _ => keeps_resetTarget)

theorem keeps_applyOutcome {step : Step} {returned : Returned} :
    Keeps LogTells (applyOutcome definition step returned) := by
  unfold applyOutcome applyNormalized
  generalize normalizeOutcome returned = outcome
  cases hstatus : outcome.status with
  | succeeded => exact keeps_applySuccess
  | skipped => exact keeps_told_bind rfl (keeps_skipUnselectedTargets step.id _)
  | waiting => exact keeps_told rfl
  | retry => exact keeps_bind keeps_query fun _ => keeps_ite (keeps_told rfl) keeps_failStep
  | cancelled => exact keeps_told rfl
  | failed => exact keeps_failStep
  | invalid status => exact keeps_pure

theorem keeps_invoke {call : Call} : Keeps LogTells (invoke executor call) :=
  keeps_bind (keeps_write fun _ h => h) fun _ => keeps_query

theorem keeps_executeReadyStep : Keeps LogTells (executeReadyStep definition executor id) :=
  keeps_bind keeps_query fun _ => keeps_bind keeps_query fun _ => keeps_told_bind rfl
    (keeps_bind keeps_query fun _ => keeps_bind keeps_invoke fun _ => keeps_applyOutcome)

theorem keeps_tickLoop (left : Nat) : Keeps LogTells (tickLoop definition executor left) := by
  induction left with
  | zero => exact keeps_pure
  | succ left ih =>
    refine keeps_bind keeps_markReadySteps fun _ => keeps_bind keeps_query fun next => ?_
    cases next with
    | none => exact keeps_pure
    | some id => exact keeps_bind keeps_executeReadyStep fun _ => ih

theorem keeps_record {event : Event} {status : RunStatus} {output error : Option Lua}
    (hevent : event.tells = none) :
    Keeps LogTells (do appendEvent event; updateRunStatus status output error) :=
  keeps_bind (keeps_appendEvent hevent) fun _ => keeps_updateRunStatus

theorem keeps_finishRunIfComplete : Keeps LogTells finishRunIfComplete :=
  keeps_bind keeps_query fun _ => keeps_ite (keeps_record rfl) <| keeps_ite (keeps_record rfl) <|
    keeps_ite (keeps_record rfl) <| keeps_ite (keeps_record rfl) keeps_pure

theorem keeps_tickRun (maxSteps : Nat) : Keeps LogTells (tickRun definition executor maxSteps) := by
  have hstart : Keeps LogTells startIfQueued :=
    keeps_bind keeps_query fun _ => keeps_ite (keeps_record rfl) keeps_pure
  have hsettle : Keeps LogTells settleRun :=
    keeps_bind keeps_query fun _ => keeps_ite (keeps_record rfl) keeps_finishRunIfComplete
  refine keeps_bind hstart fun _ => keeps_bind keeps_query fun _ => keeps_ite ?_ keeps_pure
  exact keeps_bind (keeps_tickLoop maxSteps) fun _ =>
    keeps_bind keeps_markReadySteps fun _ => hsettle

theorem keeps_cancelStep {reason : Option Lua} {step : Step} :
    Keeps LogTells (cancelStep definition executor reason step) := by
  refine keeps_bind keeps_query fun held => ?_
  cases held with
  | none => exact keeps_pure
  | some held =>
    have hwaiting : Keeps LogTells (cancelWaiting executor step.id held) :=
      keeps_ite (keeps_bind keeps_invoke fun _ => keeps_pure) keeps_pure
    exact keeps_ite keeps_pure (keeps_bind hwaiting fun _ => keeps_told rfl)

theorem keeps_command (command : Command) :
    Keeps LogTells (command.program definition executor) := by
  cases command with
  | tick maxSteps => exact keeps_tickRun maxSteps
  | resume id waitResult =>
    refine keeps_bind keeps_query fun step => keeps_bind keeps_query fun held => ?_
    refine keeps_bind keeps_updateRunStatus fun _ => keeps_told_bind rfl ?_
    refine keeps_bind keeps_query fun s => keeps_bind keeps_invoke fun returned => ?_
    exact keeps_bind keeps_applyOutcome fun _ => keeps_finishRunIfComplete
  | cancel reason =>
    refine keeps_bind keeps_query fun _ => keeps_bind (keeps_forM fun _ _ => keeps_cancelStep) ?_
    exact fun _ => keeps_record rfl

end Programs

section Runs

variable (definition executor) in
/-- The commands are issued one after the other, and each stops by itself. -/
def issueAll (start : State) (commands : List Command) : State :=
  commands.foldl (fun s command => (command.program definition executor).final s) start

/-- In every run, also where an executor raises, the events give each step its status, except that
a step they call completed may be ready again. -/
theorem log_tells_statuses (definition : Definition) (executor : Executor) (runId : String)
    (input : Lua) (commands : List Command) :
    LogTells (issueAll definition executor (startRun definition runId input) commands) := by
  have hstart : LogTells (startRun definition runId input) := by
    intro id held hheld
    rw [startRun_step hheld]
    exact .inl rfl
  unfold issueAll
  induction commands using List.reverseRecOn with
  | nil => exact hstart
  | append_singleton commands command ih =>
    rw [List.foldl_concat]
    exact keeps_command command _ ih

/-- The reset step of `repeats`: the log ends with its success, and the step is ready. -/
example : ((issueAll repeats routeToPoll (startRun repeats "run" .empty) [.tick 1]).run.status?
    "poll") = some .ready := by decide

end Runs

end Space2.Workflows
