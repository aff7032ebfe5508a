import Space2.Base.DurableProgram
import Space2.Base.Checks
import Space2.Workflows.Run

/-!
# The workflow runner

Each update of a run step, of the run or of its events is written at once, so the runner is a
program of durable writes over the run; an executor call is recorded the same way. An executor is
any function of the calls made so far. It answers, or raises, and the writes before it stay.
-/

namespace Space2.Workflows
open Base Base.Durable

inductive OutcomeStatus
  | succeeded | skipped | waiting | retry | cancelled | failed
  | invalid (status : Option Lua)

structure Outcome where
  status : OutcomeStatus
  nextStepIds : Option Selection := none
  output : Option Lua := none
  state : Option Lua := none
  error : Option Lua := none
  reason : Option Lua := none
  waitKind : Option Lua := none
  request : Option Lua := none
  delayMs : Option Lua := none

/-- What an executor hands back: a table with a status, or another value. -/
inductive Returned
  | table (outcome : Outcome)
  | other (typeName : String)

inductive Call
  | run (stepId : String) (input state : Lua) (snapshot : Run)
  | resume (stepId : String) (waitResult : Option Lua) (state : Lua) (snapshot : Run)
  | cancel (stepId : String) (state : Lua)

structure Executor where
  respond : List Call → Except String Returned
  /-- whether the executor has a `cancel-step` -/
  cancels : Bool

structure State where
  run : Run
  calls : List Call

inductive Act
  | upsertStep (stepId : String) (updates : StepUpdate)
  | updateRun (status : RunStatus) (output error : Option Lua)
  | appendEvent (event : Event)
  | call (call : Call)

def State.upsertStep (s : State) (id : String) (updates : StepUpdate) : State :=
  { s with run := s.run.upsertStep id updates }

def State.appendEvent (s : State) (event : Event) : State :=
  { s with run := s.run.appendEvent event }

def State.updateRun (s : State) (status : RunStatus) (output error : Option Lua) : State :=
  { s with run := { s.run with
      status := status, output := output.getD s.run.output, error := error <|> s.run.error } }

def State.addCall (s : State) (call : Call) : State := { s with calls := s.calls ++ [call] }

instance : Commits State Act where
  commit s
    | .upsertStep id updates => s.upsertStep id updates
    | .updateRun status output error => s.updateRun status output error
    | .appendEvent event => s.appendEvent event
    | .call call => s.addCall call

abbrev Runner := Program State Act String

section Helpers
variable (definition : Definition)

def stepUpdate (id : String) (updates : StepUpdate) : Runner Unit := do
  query fun _ => ensure (definition.steps.any (·.id = id) = true) ("missing workflow step: " ++ id)
  write (.upsertStep id updates)

def appendEvent (event : Event) : Runner Unit := write (.appendEvent event)

def updateRunStatus (status : RunStatus) (output : Option Lua := none)
    (error : Option Lua := none) : Runner Unit :=
  write (.updateRun status output error)

def current (id : String) : Runner (Option RunStep) := query fun s => .ok (s.run.step id)

/-- An executor call is on record before its answer is. -/
def invoke (executor : Executor) (call : Call) : Runner Returned := do
  write (.call call)
  query fun s => executor.respond s.calls

end Helpers

section Readiness
variable (definition : Definition) (run : Run)

def selectedTarget (source : RunStep) (targetStepId sourceStepId : String) : Bool :=
  if source.status = .skipped && source.unselected then false
  else match source.nextStepIds with
    | none => sourceStepId ≠ targetStepId
    | some .all => sourceStepId ≠ targetStepId
    | some (.only ids) => ids.contains targetStepId

/-- The inbound control edges of a step with the run steps they come from. -/
def sources (id : String) : List (Edge × RunStep) :=
  (definition.inboundControlEdges id).filterMap fun edge =>
    (run.step edge.sourceStepId).map (edge, ·)

/-- `step-ready?`. A step whose only inbound edge is its own is ready while it is pending. -/
def stepReady (id : String) : Bool :=
  match definition.inboundControlEdges id with
  | [] => true
  | [edge] =>
    (edge.sourceStepId = id && run.status? id = some .pending) || joined
  | _ => joined
where
  joined : Bool :=
    (sources definition run id).any (fun (edge, source) =>
      terminalSuccess source.status && selectedTarget source id edge.sourceStepId) &&
    (sources definition run id).all (fun (_, source) =>
      terminal source.status && source.status ≠ .failed)

/-- An edge from a step that is missing raises in the source and never occurs in a definition. -/
def unselectedReachable (edge : Edge) : Bool :=
  match run.step edge.sourceStepId with
  | none => false
  | some source =>
    (source.status = .skipped && source.unselected) ||
      (terminalSuccess source.status &&
        !selectedTarget source edge.targetStepId edge.sourceStepId)

def canSkipAsUnselected (id : String) : Bool :=
  definition.inboundControlEdges id ≠ [] &&
    (definition.inboundControlEdges id).all (unselectedReachable run)

def markReady (step : Step) : Runner Unit := do
  let waits ← query fun s =>
    .ok (s.run.status? step.id = some .pending ∧ stepReady definition s.run step.id = true : Bool)
  if waits then do
    stepUpdate definition step.id { status := .ready }
    appendEvent (.stepReady step.id)
  else pure ()

def markReadySteps : Runner Unit := definition.steps.forM (markReady definition)

end Readiness

section Input

/-- A port of an output that has no fields raises. -/
def sourceOutputValue (source : RunStep) (port : Option String) : Except String (Option Lua) :=
  match port with
  | none => .ok (some source.output)
  | some port => source.output.index port

def applyDataEdge (input : Lua) (edge : Edge) (source : RunStep) : Except String Lua := do
  match ← sourceOutputValue source edge.sourcePort, edge.targetPort, edge.sourcePort with
  | none, _, _ => pure input
  | some value, some port, _ => pure (input.setField port value)
  | some value, none, none => pure (input.merge value)
  | some value, none, some port => pure (input.setField port value)

def addInput (run : Run) (input : Lua) (edge : Edge) : Except String Lua :=
  match run.step edge.sourceStepId with
  | some source => if source.status = .succeeded then applyDataEdge input edge source else pure input
  | none => pure input

def buildStepInput (definition : Definition) (run : Run) (id : String) : Except String Lua :=
  if run.input.isTable then
    (definition.edges.filter fun edge => dataEdge edge && edge.targetStepId = id).foldlM
      (addInput run) run.input
  else throw ("bad argument #1 to 'for iterator' (table expected, got " ++
    run.input.typeName ++ ")")

end Input

section Routing
variable (definition : Definition)

def skipUpdate : StepUpdate :=
  { status := .skipped, unselected := some true, finishedAt := true }

/-- One call of `skip-unselected-subgraph`; `fuel` bounds the depth of the recursion, and every
level below skips one more pending step. -/
def skipSubgraph : Nat → String → String → Runner Unit
  | 0, _, _ => pure ()
  | fuel + 1, id, source => do
    let skips ← query fun s =>
      .ok (s.run.status? id = some .pending ∧ canSkipAsUnselected definition s.run id = true : Bool)
    if skips then do
      stepUpdate definition id skipUpdate
      appendEvent (.stepSkipped id (some source) none)
      (definition.outgoingControlEdges id).forM fun edge => skipSubgraph fuel edge.targetStepId id
    else pure ()

def pendingCount (run : Run) : Nat :=
  run.steps.entries.countP fun entry => entry.2.status = .pending

def skipUnselectedSubgraph (id source : String) : Runner Unit := do
  let fuel ← query fun s => .ok (pendingCount s.run)
  skipSubgraph definition fuel id source

def skipUnselectedTargets (source : String) : Selection → Runner Unit
  | .all => pure ()
  | .only ids =>
    (definition.outgoingControlEdges source).forM fun edge =>
      if ids.contains edge.targetStepId then pure ()
      else skipUnselectedSubgraph definition edge.targetStepId source

def targetSelected (selected : Selection) (target source : String) : Bool :=
  match selected with
  | .all => source ≠ target
  | .only ids => ids.contains target

def resetTarget (source : String) (selected : Selection) (edge : Edge) : Runner Unit := do
  let resets ← query fun s =>
    .ok (targetSelected selected edge.targetStepId source = true ∧
      (s.run.status? edge.targetStepId).any terminalSuccess = true : Bool)
  if resets then stepUpdate definition edge.targetStepId { status := .ready } else pure ()

def resetSelectedTerminalTargets (source : String) (selected : Selection) : Runner Unit :=
  (definition.outgoingControlEdges source).forM (resetTarget definition source selected)

end Routing

section Outcomes
variable (definition : Definition)

def message (text : String) : Lua := .record [("message", .string text)]

def invalidOutcome (typeName : String) (status : Option Lua) : Outcome where
  status := .failed
  error := some (.record [("message", .string "invalid outcome returned by workflow step"),
    ("data", .record ([("kind", .string "invalid-outcome"), ("returned-type", .string typeName)] ++
      status.toList.map fun status => ("returned-status", status)))])

def normalizeOutcome : Returned → Outcome
  | .other typeName => invalidOutcome typeName none
  | .table outcome =>
    match outcome.status with
    | .invalid status => invalidOutcome "table" status
    | _ => outcome

def routingSelection (outcome : Outcome) : Selection := outcome.nextStepIds.getD .all

def outcomeError (outcome : Outcome) : Lua := outcome.error.getD (message "workflow step failed")

def failStep (id : String) (outcome : Outcome) : Runner Unit := do
  stepUpdate definition id {
    status := .failed, error := some (outcomeError outcome), finishedAt := true }
  appendEvent (.stepFailed id (outcomeError outcome))

def retriesExhausted (attempt : Nat) (maxAttempts : Int) : Outcome where
  status := .failed
  error := some (.record [("message", .string "workflow step retry attempts exhausted"),
    ("data", .record [("attempt", .number (.finite attempt)),
      ("max-attempts", .number (.finite maxAttempts))])])

def applySuccess (id : String) (outcome : Outcome) : Runner Unit := do
  let selection := routingSelection outcome
  stepUpdate definition id {
    status := .succeeded
    output := some (outcome.output.getD .empty)
    state := some (outcome.state.getD .empty)
    nextStepIds := some selection
    finishedAt := true }
  appendEvent (.stepSucceeded id)
  skipUnselectedTargets definition id selection
  resetSelectedTerminalTargets definition id selection

def applySkip (id : String) (outcome : Outcome) : Runner Unit := do
  let selection := routingSelection outcome
  stepUpdate definition id {
    status := .skipped
    reason := outcome.reason
    nextStepIds := some selection
    finishedAt := true }
  appendEvent (.stepSkipped id none outcome.reason)
  skipUnselectedTargets definition id selection

def applyWait (id : String) (outcome : Outcome) : Runner Unit := do
  stepUpdate definition id {
    status := .waiting
    wait := some ⟨outcome.waitKind, outcome.request⟩
    state := some (outcome.state.getD .empty) }
  appendEvent (.stepWaiting id outcome.waitKind)

def applyRetry (step : Step) (outcome : Outcome) : Runner Unit := do
  let held ← current step.id
  let next := (held.map RunStep.attempt).getD 0 + 1
  if (next : Int) ≤ Definition.maxAttempts step then do
    stepUpdate definition step.id {
      status := .ready
      attempt := some next
      state := some (outcome.state.getD .empty)
      retryAfterMs := outcome.delayMs }
    appendEvent (.stepRetried step.id next outcome.delayMs)
  else failStep definition step.id (retriesExhausted next (Definition.maxAttempts step))

def applyCancel (id : String) (outcome : Outcome) : Runner Unit := do
  stepUpdate definition id {
    status := .cancelled, output := some (outcome.output.getD .empty), finishedAt := true }
  appendEvent (.stepCancelled id none)

def applyNormalized (step : Step) (outcome : Outcome) : Runner Unit :=
  match outcome.status with
  | .succeeded => applySuccess definition step.id outcome
  | .skipped => applySkip definition step.id outcome
  | .waiting => applyWait definition step.id outcome
  | .retry => applyRetry definition step outcome
  | .cancelled => applyCancel definition step.id outcome
  | .failed => failStep definition step.id outcome
  | .invalid _ => pure ()

def applyOutcome (step : Step) (returned : Returned) : Runner Unit :=
  applyNormalized definition step (normalizeOutcome returned)

end Outcomes

section Commands
variable (definition : Definition) (executor : Executor)

def findStep (id : String) : Runner Step := query fun _ =>
  match definition.findStep id with
  | some step => .ok step
  | none => .error ("missing workflow step: " ++ id)

def stateOf (held : Option RunStep) : Lua := (held.map RunStep.state).getD .empty

def executeReadyStep (id : String) : Runner Unit := do
  let step ← findStep definition id
  let input ← query fun s => buildStepInput definition s.run id
  stepUpdate definition id { status := .running, input := some input }
  appendEvent (.stepStarted id false)
  let s ← query fun s => .ok s
  let returned ← invoke executor (.run id input (stateOf (s.run.step id)) s.run)
  applyOutcome definition step returned

/-- The first ready step in the order of the definition. -/
def nextReady (run : Run) : Option String :=
  (definition.steps.map Step.id).find? fun id => run.status? id = some .ready

/-- The loop of `tick-run` with that many executions left. -/
def tickLoop : Nat → Runner Unit
  | 0 => pure ()
  | left + 1 => do
    markReadySteps definition
    let next ← query fun s => .ok (nextReady definition s.run)
    match next with
    | some id => do
      executeReadyStep definition executor id
      tickLoop left
    | none => pure ()

def finishRunIfComplete : Runner Unit := do
  let run ← query fun s => .ok s.run
  if run.anyStatus .failed then do
    appendEvent (.runFailed none)
    updateRunStatus .failed
  else if run.anyStatus .cancelled then do
    appendEvent (.runCancelled none)
    updateRunStatus .cancelled
  else if run.anyStatus .waiting then do
    appendEvent .runWaiting
    updateRunStatus .waiting
  else if run.allTerminalSuccess then do
    appendEvent .runSucceeded
    updateRunStatus .succeeded (some run.outputFromSteps)
  else pure ()

def stalled : Lua := message "workflow run stalled with unresolved pending steps"

def failStalledRun : Runner Unit := do
  appendEvent (.runFailed (some stalled))
  updateRunStatus .failed none (some stalled)

def noReadyFailure (run : Run) : Bool :=
  !run.anyStatus .ready && run.unresolvedPending && !run.anyStatus .cancelled &&
    !run.anyStatus .waiting

def settleRun : Runner Unit := do
  let run ← query fun s => .ok s.run
  if noReadyFailure run then failStalledRun else finishRunIfComplete

def startIfQueued : Runner Unit := do
  let run ← query fun s => .ok s.run
  if run.status = .queued then do
    appendEvent .runStarted
    updateRunStatus .running
  else pure ()

def tickRun (maxSteps : Nat) : Runner Unit := do
  startIfQueued
  let run ← query fun s => .ok s.run
  if run.status = .running ∨ run.status = .queued then do
    tickLoop definition executor maxSteps
    markReadySteps definition
    settleRun
  else pure ()

def waitingStep (id : String) : Runner RunStep := query fun s =>
  match s.run.step id with
  | none => .error ("missing workflow run step: " ++ id)
  | some held =>
    if held.status = .waiting then .ok held
    else .error ("workflow run step is not waiting: " ++ id)

/-- Only the status of the step is looked at, never the status of the run. -/
def resumeStep (id : String) (waitResult : Option Lua) : Runner Unit := do
  let step ← findStep definition id
  let held ← waitingStep id
  updateRunStatus .running
  stepUpdate definition id { status := .running }
  appendEvent (.stepStarted id true)
  let s ← query fun s => .ok s
  let returned ← invoke executor (.resume id waitResult held.state s.run)
  applyOutcome definition step returned
  finishRunIfComplete

def RunStatus.name : RunStatus → String
  | .queued => "queued"
  | .running => "running"
  | .waiting => "waiting"
  | .succeeded => "succeeded"
  | .failed => "failed"
  | .cancelled => "cancelled"

def cancellableRunStatus : RunStatus → Bool
  | .queued | .running | .waiting => true
  | _ => false

def cancelWaiting (id : String) (held : RunStep) : Runner Unit :=
  if held.status = .waiting ∧ executor.cancels = true then do
    let _ ← invoke executor (.cancel id held.state)
    pure ()
  else pure ()

def cancelStep (reason : Option Lua) (step : Step) : Runner Unit := do
  let held ← current step.id
  match held with
  | none => pure ()
  | some held =>
    if terminal held.status then pure ()
    else do
      cancelWaiting executor step.id held
      stepUpdate definition step.id { status := .cancelled, finishedAt := true }
      appendEvent (.stepCancelled step.id reason)

/-- `tostring` of a reason, which is a text in practice -/
def reasonText : Option Lua → String
  | none => "nil"
  | some (.string text) => text
  | some value => value.typeName

def cancelRun (reason : Option Lua) : Runner Unit := do
  query fun s => ensure (cancellableRunStatus s.run.status = true)
    ("workflow run is not cancellable: " ++ s.run.id ++ " status=" ++ s.run.status.name)
  definition.steps.forM (cancelStep definition executor reason)
  appendEvent (.runCancelled reason)
  updateRunStatus .cancelled none (some (message (reasonText reason)))

/-- `start-run`: a queued run with every step pending. -/
def startRun (runId : String) (input : Lua) : State where
  run := {
    id := runId
    status := .queued
    input := input
    output := .empty
    error := none
    steps := definition.steps.foldl (fun steps step => steps.insert step.id .new) ∅
    events := [.runCreated] }
  calls := []

inductive Command
  | tick (maxSteps : Nat)
  | resume (stepId : String) (waitResult : Option Lua)
  | cancel (reason : Option Lua)

def Command.program : Command → Runner Unit
  | .tick maxSteps => tickRun definition executor maxSteps
  | .resume id waitResult => resumeStep definition executor id waitResult
  | .cancel reason => cancelRun definition executor reason

/-- The states a run passes through while the commands are issued one after the other, each
interrupted anywhere or not at all; `allowed` restricts the commands a state admits. -/
inductive Runs (allowed : State → Command → Prop) : List Command → State → State → Prop
  | nil (s : State) : Runs allowed [] s s
  | snoc {commands : List Command} {command : Command} {s t u : State} :
    Runs allowed commands s t → allowed t command →
    (command.program definition executor).Crashes t u → Runs allowed (commands ++ [command]) s u

variable {definition executor}

/-- What every command keeps, every run keeps. -/
theorem Runs.invariant {allowed : State → Command → Prop} {commands : List Command} {s u : State}
    {I : List Command → State → Prop} (hruns : Runs definition executor allowed commands s u)
    (hstart : I [] s)
    (hstep : ∀ commands command t u, I commands t → allowed t command →
      (command.program definition executor).Crashes t u → I (commands ++ [command]) u) :
    I commands u := by
  induction hruns with
  | nil s => exact hstart
  | snoc hbefore hallowed hcrash ih => exact hstep _ _ _ _ (ih hstart) hallowed hcrash

end Commands

end Space2.Workflows
