import Space2.Base.AllowedWrites
import Space2.Workflows.SelfLoops

/-!
# What a step carries when it becomes ready again

An update cannot take a field away: it is merged into the record of the step, and a field it sets
to nil is one it does not name. A step that becomes ready for the first time, or is retried, has
nothing to take away. A completed step that the routing of another step resets keeps all it has.
-/

namespace Space2.Workflows
open Base Base.Durable

variable {definition : Definition} {executor : Executor} {s : State} {id : String}

section Records

/-- No trace of an attempt that has ended: no finish, skip reason, error or routing. -/
def RunStep.Clean (held : RunStep) : Prop :=
  held.finishedAt = false ∧ held.unselected = false ∧ held.reason = none ∧ held.error = none ∧
    held.nextStepIds = none

instance (held : RunStep) : Decidable held.Clean := inferInstanceAs (Decidable
  (held.finishedAt = false ∧ held.unselected = false ∧ held.reason = none ∧ held.error = none ∧
    held.nextStepIds = none))

theorem RunStep.clean_new : RunStep.new.Clean := ⟨rfl, rfl, rfl, rfl, rfl⟩

/-- The update names none of the fields that `Clean` is about. -/
structure StepUpdate.Plain (updates : StepUpdate) : Prop where
  finishedAt : updates.finishedAt = false
  unselected : updates.unselected = none
  reason : updates.reason = none
  error : updates.error = none
  nextStepIds : updates.nextStepIds = none

theorem StepUpdate.Plain.clean {updates : StepUpdate} (h : updates.Plain) {held : RunStep}
    (hheld : held.Clean) : (held.update updates).Clean := by
  obtain ⟨hfinished, hunselected, hreason, herror, hrouting⟩ := hheld
  refine ⟨?_, ?_, ?_, ?_, ?_⟩
  · simp [RunStep.update, h.finishedAt, hfinished]
  · simp [RunStep.update, h.unselected, hunselected]
  · simp [RunStep.update, h.reason, hreason]
  · simp [RunStep.update, h.error, herror]
  · simp [RunStep.update, h.nextStepIds, hrouting]

end Records

section Writes

/-- What a write makes ready is clean afterwards. -/
def ReadiesClean (s : State) : Act → Prop
  | .upsertStep id updates => updates.status = .ready →
    (((s.run.step id).getD .new).update updates).Clean
  | _ => True

instance (s : State) : (act : Act) → Decidable (ReadiesClean s act)
  | .upsertStep id updates => inferInstanceAs (Decidable
    (updates.status = .ready → (((s.run.step id).getD .new).update updates).Clean))
  | .updateRun .. | .appendEvent _ | .call _ => .isTrue trivial

/-- The write makes a completed step ready again. -/
def Resets (s : State) : Act → Prop
  | .upsertStep id updates => updates.status = .ready ∧
    (s.run.status? id).any terminalSuccess = true
  | _ => False

/-- The writes of the runner: a step that has ended is only written to where a completed one is
reset, an end is stamped, and no other update names what belongs to an end. -/
structure AdmittedUpdate (s : State) (id : String) (updates : StepUpdate) : Prop where
  before : (s.run.status? id).all (!terminal ·) = true ∨ Resets s (.upsertStep id updates)
  stamped : terminal updates.status = true → updates.finishedAt = true
  plain : terminal updates.status = false → updates.Plain

def Admitted (s : State) : Act → Prop
  | .upsertStep id updates => AdmittedUpdate s id updates
  | _ => True

/-- A step that has ended says when. -/
def Stamped (s : State) : Prop :=
  ∀ id held, s.run.step id = some held → terminal held.status = true → held.finishedAt = true

/-- A step that has not ended carries nothing of an earlier end. -/
def Untainted (s : State) : Prop :=
  ∀ id held, s.run.step id = some held → terminal held.status = false → held.Clean

/-- A property of single steps is kept by every write when an update of a step keeps it. -/
theorem steps_commit {K : RunStep → Prop} {act : Act}
    (h : ∀ id held, s.run.step id = some held → K held)
    (hupdate : ∀ id updates, act = .upsertStep id updates →
      K (((s.run.step id).getD .new).update updates)) :
    ∀ id held, (Commits.commit s act).run.step id = some held → K held := by
  intro id held hheld
  cases act with
  | upsertStep target updates =>
    change (s.run.upsertStep target updates).step id = some held at hheld
    by_cases hid : id = target
    · subst hid
      rw [Run.step_upsertStep_self] at hheld
      obtain rfl := Option.some.inj hheld
      exact hupdate id updates rfl
    · rw [Run.step_upsertStep_ne hid] at hheld
      exact h id held hheld
  | updateRun status output error => exact h id held hheld
  | appendEvent event => exact h id held hheld
  | call call => exact h id held hheld

theorem Stamped.commit (h : Stamped s) {act : Act} (hact : Admitted s act) :
    Stamped (Commits.commit s act) := by
  refine steps_commit h ?_
  rintro id updates rfl hterminal
  rw [RunStep.update_status] at hterminal
  simp [RunStep.update, hact.stamped hterminal]

theorem Untainted.commit (h : Untainted s) {act : Act} (hact : Admitted s act)
    (hreset : ¬ Resets s act) : Untainted (Commits.commit s act) := by
  refine steps_commit h ?_
  rintro id updates rfl hopen
  rw [RunStep.update_status] at hopen
  refine (hact.plain hopen).clean ?_
  cases hheld : s.run.step id with
  | none => exact RunStep.clean_new
  | some held =>
    have hstatus := hact.before.resolve_right hreset
    rw [Run.status?, hheld, Option.map_some, Option.all_some, Bool.not_eq_true'] at hstatus
    exact h id held hheld hstatus

/-- A step that has failed or was cancelled, with the record it has. -/
def Closed (id : String) (held : RunStep) (s : State) : Prop :=
  s.run.step id = some held ∧ (held.status = .failed ∨ held.status = .cancelled)

theorem Closed.commit {held : RunStep} (h : Closed id held s) {act : Act} (hact : Admitted s act) :
    Closed id held (Commits.commit s act) := by
  obtain ⟨hheld, hstatus⟩ := h
  refine ⟨?_, hstatus⟩
  cases act with
  | upsertStep other updates =>
    -- neither an update of an open step nor a reset meets a closed one
    have hne : id ≠ other := by
      rintro rfl
      have hbefore := hact.before
      simp only [Resets, Run.status?, hheld, Option.map_some, Option.all_some, Option.any_some]
        at hbefore
      obtain hfailed | hcancelled := hstatus
      · simp [hfailed, terminal, terminalSuccess] at hbefore
      · simp [hcancelled, terminal, terminalSuccess] at hbefore
    exact (Run.step_upsertStep_ne hne).trans hheld
  | updateRun status output error => exact hheld
  | appendEvent event => exact hheld
  | call call => exact hheld

/-- A reset leaves the mark of the end on the step. -/
theorem Stamped.not_clean (h : Stamped s) {act : Act} (hreset : Resets s act) :
    ¬ ReadiesClean s act := by
  cases act with
  | upsertStep id updates =>
    obtain ⟨hready, hdone⟩ := hreset
    cases hheld : s.run.step id with
    | none => simp [Run.status?, hheld] at hdone
    | some held =>
      have hterminal : terminal held.status = true := by
        rw [Run.status?, hheld, Option.map_some, Option.any_some] at hdone
        revert hdone
        cases held.status <;> simp [terminalSuccess, terminal]
      intro hclean
      have hfinished := (hclean hready).1
      simp [RunStep.update, hheld, h id held hheld hterminal] at hfinished
  | updateRun status output error => exact hreset.elim
  | appendEvent event => exact hreset.elim
  | call call => exact hreset.elim

theorem Untainted.readiesClean (h : Untainted s) {act : Act} (hact : Admitted s act)
    (hreset : ¬ Resets s act) : ReadiesClean s act := by
  cases act with
  | upsertStep id updates =>
    intro hready
    refine h.commit hact hreset id _ (Run.step_upsertStep_self ..) ?_
    rw [RunStep.update_status, hready]
    rfl
  | updateRun status output error => trivial
  | appendEvent event => trivial
  | call call => trivial

end Writes

section Programs

/-- Started anywhere, the program makes admitted writes only. -/
abbrev Fair {α : Type} (p : Runner α) : Prop :=
  Allows (fun _ => True) p Admitted fun _ _ => True

theorem fair_query {α : Type} {f : State → Except String α} : Fair (query f) :=
  allows_query fun _ _ _ _ => trivial

theorem fair_appendEvent {event : Event} : Fair (appendEvent event) :=
  allows_write fun _ _ => ⟨trivial, trivial⟩

theorem fair_updateRunStatus {status : RunStatus} {output error : Option Lua} :
    Fair (updateRunStatus status output error) :=
  allows_write fun _ _ => ⟨trivial, trivial⟩

theorem fair_bind {α β : Type} {p : Runner α} {f : α → Runner β} (hp : Fair p)
    (hf : ∀ a, Fair (f a)) : Fair (p >>= f) := allows_bind hp hf

theorem allows_stepUpdate {updates : StepUpdate} {Q : Unit → State → Prop}
    (h : Admitted s (.upsertStep id updates)) (hQ : Q ⟨⟩ (s.upsertStep id updates)) :
    Allows (· = s) (stepUpdate definition id updates) Admitted Q := by
  refine allows_query_bind fun _ _ => allows_write ?_
  rintro t rfl
  exact ⟨h, hQ⟩

theorem admitted_end {updates : StepUpdate} {status : StepStatus}
    (hstatus : s.run.status? id = some status) (hbefore : terminal status = false)
    (hterminal : terminal updates.status = true) (hfinished : updates.finishedAt = true) :
    Admitted s (.upsertStep id updates) := by
  refine ⟨.inl ?_, fun _ => hfinished, fun hopen => ?_⟩
  · rw [hstatus, Option.all_some, hbefore]
    rfl
  · rw [hterminal] at hopen
    cases hopen

theorem admitted_open {updates : StepUpdate} {status : StepStatus}
    (hstatus : s.run.status? id = some status) (hbefore : terminal status = false)
    (hopen : terminal updates.status = false) (hplain : updates.Plain) :
    Admitted s (.upsertStep id updates) := by
  refine ⟨.inl ?_, fun hterminal => ?_, fun _ => hplain⟩
  · rw [hstatus, Option.all_some, hbefore]
    rfl
  · rw [hopen] at hterminal
    cases hterminal

/-- The update of a step followed by a program that may be started anywhere. -/
theorem update_allows {updates : StepUpdate} {k : Unit → Runner Unit}
    (h : Admitted s (.upsertStep id updates)) (hk : ∀ a, Fair (k a)) :
    Allows (· = s) (stepUpdate definition id updates >>= k) Admitted fun _ _ => True :=
  allows_bind (allows_stepUpdate h trivial) hk

theorem fair_markReady {step : Step} : Fair (markReady definition step) := by
  refine allows_of_each fun s _ => allows_query_bind fun waits hwaits => ?_
  refine allows_ite (fun hready => ?_) fun _ => allows_pure fun _ _ => trivial
  rw [← Except.ok.inj hwaits] at hready
  obtain ⟨hpending, -⟩ := of_decide_eq_true hready
  exact update_allows (admitted_open hpending rfl rfl ⟨rfl, rfl, rfl, rfl, rfl⟩) fun _ =>
    fair_appendEvent

theorem fair_markReadySteps : Fair (markReadySteps definition) :=
  allows_forM fun _ _ => fair_markReady

theorem fair_skipSubgraph (fuel : Nat) (id source : String) :
    Fair (skipSubgraph definition fuel id source) := by
  induction fuel generalizing id source with
  | zero => exact allows_pure fun _ _ => trivial
  | succ fuel ih =>
    refine allows_of_each fun s _ => allows_query_bind fun skips hskips => ?_
    refine allows_ite (fun htrue => ?_) fun _ => allows_pure fun _ _ => trivial
    rw [← Except.ok.inj hskips] at htrue
    obtain ⟨hpending, -⟩ := of_decide_eq_true htrue
    refine update_allows (admitted_end hpending rfl rfl rfl) fun _ => fair_bind fair_appendEvent
      fun _ => ?_
    exact allows_forM fun edge _ => ih edge.targetStepId id

theorem fair_skipUnselectedTargets (source : String) (selection : Selection) :
    Fair (skipUnselectedTargets definition source selection) := by
  cases selection with
  | all => exact allows_pure fun _ _ => trivial
  | only ids =>
    refine allows_forM fun edge _ =>
      allows_ite (fun _ => allows_pure fun _ _ => trivial) fun _ => ?_
    exact fair_bind fair_query fun fuel => fair_skipSubgraph fuel edge.targetStepId source

theorem fair_resetTarget {source : String} {selected : Selection} {edge : Edge} :
    Fair (resetTarget definition source selected edge) := by
  refine allows_of_each fun s _ => allows_query_bind fun resets hresets => ?_
  refine allows_ite (fun htrue => ?_) fun _ => allows_pure fun _ _ => trivial
  rw [← Except.ok.inj hresets] at htrue
  obtain ⟨-, hdone⟩ := of_decide_eq_true htrue
  refine allows_stepUpdate ⟨.inr ⟨rfl, hdone⟩, fun hterminal => ?_, fun _ => ?_⟩ trivial
  · cases hterminal
  · exact ⟨rfl, rfl, rfl, rfl, rfl⟩

/-! An outcome is applied to a step that is running. -/

section Applied
variable {outcome : Outcome}

theorem failStep_allows (h : s.run.status? id = some .running) :
    Allows (· = s) (failStep definition id outcome) Admitted fun _ _ => True :=
  update_allows (admitted_end h rfl rfl rfl) fun _ => fair_appendEvent

theorem applySuccess_allows (h : s.run.status? id = some .running) :
    Allows (· = s) (applySuccess definition id outcome) Admitted fun _ _ => True := by
  refine update_allows (admitted_end h rfl rfl rfl) fun _ => fair_bind fair_appendEvent fun _ => ?_
  exact fair_bind (fair_skipUnselectedTargets id _) fun _ => allows_forM fun _ _ => fair_resetTarget

theorem applySkip_allows (h : s.run.status? id = some .running) :
    Allows (· = s) (applySkip definition id outcome) Admitted fun _ _ => True :=
  update_allows (admitted_end h rfl rfl rfl) fun _ => fair_bind fair_appendEvent fun _ =>
    fair_skipUnselectedTargets id _

theorem applyCancel_allows (h : s.run.status? id = some .running) :
    Allows (· = s) (applyCancel definition id outcome) Admitted fun _ _ => True :=
  update_allows (admitted_end h rfl rfl rfl) fun _ => fair_appendEvent

theorem applyWait_allows (h : s.run.status? id = some .running) :
    Allows (· = s) (applyWait definition id outcome) Admitted fun _ _ => True :=
  update_allows (admitted_open h rfl rfl ⟨rfl, rfl, rfl, rfl, rfl⟩) fun _ => fair_appendEvent

theorem applyRetry_allows {step : Step} (h : s.run.status? step.id = some .running) :
    Allows (· = s) (applyRetry definition step outcome) Admitted fun _ _ => True := by
  refine allows_query_bind fun held _ => allows_ite (fun _ => ?_) fun _ => failStep_allows h
  exact update_allows (admitted_open h rfl rfl ⟨rfl, rfl, rfl, rfl, rfl⟩) fun _ => fair_appendEvent

theorem applyOutcome_allows {step : Step} {returned : Returned}
    (h : s.run.status? step.id = some .running) :
    Allows (· = s) (applyOutcome definition step returned) Admitted fun _ _ => True := by
  unfold applyOutcome applyNormalized
  generalize normalizeOutcome returned = outcome
  cases hstatus : outcome.status with
  | succeeded => exact applySuccess_allows h
  | skipped => exact applySkip_allows h
  | waiting => exact applyWait_allows h
  | retry => exact applyRetry_allows h
  | cancelled => exact applyCancel_allows h
  | failed => exact failStep_allows h
  | invalid status => exact allows_pure fun _ _ => trivial

end Applied

/-- After the call the rest of the program goes on from the state with the call on record. -/
theorem allows_invoke_bind {call : Call} {k : Returned → Runner Unit}
    (h : ∀ returned, Allows (· = s.addCall call) (k returned) Admitted fun _ _ => True) :
    Allows (· = s) (invoke executor call >>= k) Admitted fun _ _ => True := by
  refine allows_bind (R := fun _ t => t = s.addCall call) ?_ h
  refine allows_write_bind trivial (allows_query ?_)
  rintro t rfl returned _
  rfl

theorem findStep_query {step : Step} (h : (match definition.findStep id with
    | some step => Except.ok step
    | none => .error ("missing workflow step: " ++ id)) = .ok step) : step.id = id := by
  cases hfound : definition.findStep id with
  | none => simp [hfound] at h
  | some found =>
    obtain rfl : found = step := by simpa [hfound] using h
    exact findStep_id hfound

/-- A step that has not ended is executed or resumed: it runs while it is asked. -/
theorem execution_allows {stepId : String} {updates : StepUpdate} {resume : Bool}
    {call : State → Call} {k : Returned → Runner Unit} {status : StepStatus}
    (hstatus : s.run.status? stepId = some status) (hbefore : terminal status = false)
    (hrunning : updates.status = .running) (hplain : updates.Plain)
    (hk : ∀ returned t, t.run.status? stepId = some .running →
      Allows (· = t) (k returned) Admitted fun _ _ => True) :
    Allows (· = s) (do
      stepUpdate definition stepId updates
      appendEvent (.stepStarted stepId resume)
      let s ← query fun s => .ok s
      let returned ← invoke executor (call s)
      k returned) Admitted fun _ _ => True := by
  have hopen : terminal updates.status = false := by rw [hrunning]; rfl
  refine allows_bind (R := fun _ t => t = s.upsertStep stepId updates)
    (allows_stepUpdate (admitted_open hstatus hbefore hopen hplain) rfl) fun _ => ?_
  refine allows_write_bind trivial (allows_query_bind fun t ht => ?_)
  obtain rfl := Except.ok.inj ht
  refine allows_invoke_bind fun returned => hk returned _ ?_
  change (s.run.upsertStep stepId updates).status? stepId = some .running
  rw [Run.status?, Run.step_upsertStep_self, Option.map_some, RunStep.update_status, hrunning]

theorem executeReadyStep_allows (h : s.run.status? id = some .ready) :
    Allows (· = s) (executeReadyStep definition executor id) Admitted fun _ _ => True := by
  refine allows_query_bind fun step hfind => ?_
  obtain rfl := findStep_query hfind
  refine allows_query_bind fun input _ => ?_
  exact execution_allows h rfl rfl ⟨rfl, rfl, rfl, rfl, rfl⟩ fun _ _ => applyOutcome_allows

theorem fair_tickLoop (left : Nat) : Fair (tickLoop definition executor left) := by
  induction left with
  | zero => exact allows_pure fun _ _ => trivial
  | succ left ih =>
    refine fair_bind fair_markReadySteps fun _ => allows_of_each fun s _ => ?_
    refine allows_query_bind fun next hnext => ?_
    cases next with
    | none => exact allows_pure fun _ _ => trivial
    | some id =>
      have hready := nextReady_status (Except.ok.inj hnext)
      exact allows_bind (executeReadyStep_allows hready) fun _ => ih

theorem fair_record {event : Event} {status : RunStatus} {output error : Option Lua} :
    Fair (do appendEvent event; updateRunStatus status output error) :=
  fair_bind fair_appendEvent fun _ => fair_updateRunStatus

theorem fair_finishRunIfComplete : Fair finishRunIfComplete := by
  refine fair_bind fair_query fun run => ?_
  refine allows_ite (fun _ => fair_record) fun _ => allows_ite (fun _ => fair_record) fun _ => ?_
  refine allows_ite (fun _ => fair_record) fun _ => allows_ite (fun _ => fair_record) fun _ => ?_
  exact allows_pure fun _ _ => trivial

theorem fair_tickRun (maxSteps : Nat) : Fair (tickRun definition executor maxSteps) := by
  have hstart : Fair startIfQueued := fair_bind fair_query fun run =>
    allows_ite (fun _ => fair_record) fun _ => allows_pure fun _ _ => trivial
  have hsettle : Fair settleRun := fair_bind fair_query fun run =>
    allows_ite (fun _ => fair_record) fun _ => fair_finishRunIfComplete
  refine fair_bind hstart fun _ => fair_bind fair_query fun run => allows_ite (fun _ => ?_)
    fun _ => allows_pure fun _ _ => trivial
  exact fair_bind (fair_tickLoop maxSteps) fun _ => fair_bind fair_markReadySteps fun _ => hsettle

theorem fair_resumeStep (id : String) (waitResult : Option Lua) :
    Fair (resumeStep definition executor id waitResult) := by
  refine allows_of_each fun s _ => allows_query_bind fun step hfind => ?_
  obtain rfl := findStep_query hfind
  refine allows_query_bind fun held hwaiting => ?_
  have hstatus : s.run.status? step.id = some .waiting := by
    cases hfound : s.run.step step.id with
    | none => simp [hfound] at hwaiting
    | some found =>
      by_cases hwait : found.status = .waiting
      · rw [Run.status?, hfound, Option.map_some, hwait]
      · simp [hfound, hwait] at hwaiting
  refine allows_write_bind trivial ?_
  refine execution_allows (s := s.updateRun .running none none) hstatus rfl rfl
    ⟨rfl, rfl, rfl, rfl, rfl⟩ fun returned t hrunning => ?_
  exact allows_bind (applyOutcome_allows hrunning) fun _ => fair_finishRunIfComplete

/-- Only steps that have not ended are cancelled. -/
theorem fair_cancelStep {reason : Option Lua} {step : Step} :
    Fair (cancelStep definition executor reason step) := by
  refine allows_of_each fun s _ => allows_query_bind fun found hfound => ?_
  cases found with
  | none => exact allows_pure fun _ _ => trivial
  | some held =>
    have hstatus : s.run.status? step.id = some held.status := by
      rw [Run.status?, Except.ok.inj hfound, Option.map_some]
    refine allows_ite (fun _ => allows_pure fun _ _ => trivial) fun hopen => ?_
    have hwaiting : Allows (· = s) (cancelWaiting executor step.id held) Admitted
        fun _ t => t.run = s.run := by
      refine allows_ite (fun _ => ?_) fun _ => allows_pure fun t ht => congrArg State.run ht
      refine allows_bind (R := fun _ t => t.run = s.run) ?_ fun _ => allows_pure fun _ ht => ht
      refine allows_write_bind trivial (allows_query ?_)
      rintro t rfl _ _
      rfl
    refine allows_bind hwaiting fun _ => allows_of_each fun t ht => ?_
    exact update_allows (admitted_end (by rw [ht, hstatus]) (by simpa using hopen) rfl rfl) fun _ =>
      fair_appendEvent

theorem fair_command (command : Command) : Fair (command.program definition executor) := by
  cases command with
  | tick maxSteps => exact fair_tickRun maxSteps
  | resume id waitResult => exact fair_resumeStep id waitResult
  | cancel reason =>
    refine fair_bind fair_query fun _ =>
      fair_bind (allows_forM fun _ _ => fair_cancelStep) fun _ => ?_
    exact fair_record

end Programs

section Runs

variable (definition executor) in
/-- The writes of a run: commands are issued one after the other, and each is interrupted anywhere
or not at all. -/
inductive Written (start : State) : List Act → Prop
  | nil : Written start []
  | snoc {ws vs : List Act} {command : Command} :
    Written start ws → vs <+: (command.program definition executor (commitAll start ws)).writes →
    Written start (ws ++ vs)

theorem Written.admitted {start : State} {ws : List Act}
    (h : Written definition executor start ws) : AllWrites Admitted start ws := by
  induction h with
  | nil => trivial
  | snoc _ hinitial ih =>
    have hprogram := ((fair_command _).writes _ trivial).initial hinitial
    exact Along.append.mpr ⟨ih, hprogram⟩

theorem startRun_stamped (runId : String) (input : Lua) :
    Stamped (startRun definition runId input) := by
  intro id held hheld hterminal
  rw [startRun_step hheld] at hterminal
  cases hterminal

/-- In every run, a step that has ended says when it did, and one that has failed or was cancelled
keeps its whole record from then on. -/
theorem ended_steps_final (definition : Definition) (executor : Executor) (runId : String)
    (input : Lua) (before after : List Act)
    (h : Written definition executor (startRun definition runId input) (before ++ after)) :
    Stamped (commitAll (startRun definition runId input) before) ∧
      ∀ id held, Closed id held (commitAll (startRun definition runId input) before) →
        Closed id held (commitAll (startRun definition runId input) (before ++ after)) := by
  obtain ⟨hbefore, hafter⟩ := Along.append.mp h.admitted
  refine ⟨hbefore.invariant (fun _ _ hs hact => hs.commit hact) (startRun_stamped runId input), ?_⟩
  intro id held hclosed
  rw [commitAll_append]
  exact hafter.invariant (fun _ _ hs hact => hs.commit hact) hclosed

/-- In every run, whatever becomes ready is clean exactly when no completed step is reset. -/
theorem step_resets (definition : Definition) (executor : Executor) (runId : String) (input : Lua)
    (ws : List Act) (h : Written definition executor (startRun definition runId input) ws) :
    AllWrites ReadiesClean (startRun definition runId input) ws ↔
      AllWrites (fun s act => ¬ Resets s act) (startRun definition runId input) ws := by
  have hstamped : Stamped (startRun definition runId input) := startRun_stamped runId input
  have huntainted : Untainted (startRun definition runId input) := by
    intro id held hheld _
    rw [startRun_step hheld]
    exact RunStep.clean_new
  constructor
  · intro hclean
    exact (h.admitted.and hclean).imp (fun _ _ hs hact => hs.commit hact.1)
      (fun _ _ hs hact hreset => hs.not_clean hreset hact.2) hstamped
  · intro hreset
    exact (h.admitted.and hreset).imp (fun _ _ hs hact => hs.commit hact.1 hact.2)
      (fun _ _ hs hact => hs.readiesClean hact.1 hact.2) huntainted

def chainWrites : List Act := (tickRun chain succeedAlways 2 (startRun chain "run" .empty)).writes

theorem chainWrites_written :
    Written chain succeedAlways (startRun chain "run" .empty) chainWrites :=
  @Written.snoc _ _ _ [] _ (.tick 2) .nil List.prefix_rfl

theorem step_resets_chain :
    AllWrites ReadiesClean (startRun chain "run" .empty) chainWrites ↔
      AllWrites (fun s act => ¬ Resets s act) (startRun chain "run" .empty) chainWrites :=
  step_resets chain succeedAlways "run" .empty _ chainWrites_written

theorem ended_steps_final_chain :
    Stamped (commitAll (startRun chain "run" .empty) (chainWrites.take 5)) ∧ ∀ id held,
      Closed id held (commitAll (startRun chain "run" .empty) (chainWrites.take 5)) →
      Closed id held (commitAll (startRun chain "run" .empty)
        (chainWrites.take 5 ++ chainWrites.drop 5)) :=
  ended_steps_final chain succeedAlways "run" .empty (chainWrites.take 5) (chainWrites.drop 5)
    (by rw [List.take_append_drop]; exact chainWrites_written)

/-- A step with an edge to itself. -/
def repeats : Definition where
  id := "repeats"
  steps := [⟨"poll", "code", .empty, none⟩]
  edges := [⟨"again", none, "poll", "poll", none, none⟩]
  endpoints edge hedge := by
    rw [List.mem_singleton.mp hedge]
    simp

/-- It routes back to the step it is asked about. -/
def routeToPoll : Executor where
  respond _ := .ok (.table { status := .succeeded, nextStepIds := some (.only ["poll"]) })
  cancels := false

/-- The reset step is ready again and still has the finish and the routing of the last attempt. -/
theorem reset_keeps_finish : ¬ ∀ (definition : Definition) (executor : Executor) (runId : String)
    (input : Lua) (ws : List Act),
    Written definition executor (startRun definition runId input) ws →
    AllWrites ReadiesClean (startRun definition runId input) ws := by
  intro h
  have hclean := h repeats routeToPoll "run" .empty _
    (@Written.snoc _ _ _ [] _ (.tick 1) .nil List.prefix_rfl)
  exact absurd hclean (by decide)

end Runs

end Space2.Workflows
