import Mathlib
import Space2.Base.LuaValue

/-!
# Workflow definitions and runs

A definition is a graph of steps with control and data edges between existing steps. A run holds
the state of each step and the log of its events. An update of a run step names the fields it sets
and leaves the others as they are.
-/

namespace Space2.Workflows
open Base Relation

inductive EdgeKind
  | control | data
  | other (name : String)
  deriving DecidableEq, Repr

structure Step where
  id : String
  codeEntityId : String
  config : Lua
  maxAttempts : Option Int

structure Edge where
  id : String
  kind : Option EdgeKind
  sourceStepId : String
  targetStepId : String
  sourcePort : Option String
  targetPort : Option String
  deriving DecidableEq, Repr

def controlEdge (edge : Edge) : Bool := edge.kind = none || edge.kind = some .control

def dataEdge (edge : Edge) : Bool := edge.kind = some .data

structure Definition where
  id : String
  steps : List Step
  edges : List Edge
  endpoints : ∀ edge ∈ edges,
    edge.sourceStepId ∈ steps.map Step.id ∧ edge.targetStepId ∈ steps.map Step.id

namespace Definition
variable (definition : Definition)

def findStep (id : String) : Option Step := (definition.steps.filter (·.id = id)).getLast?

def inboundControlEdges (id : String) : List Edge :=
  definition.edges.filter fun edge => controlEdge edge && edge.targetStepId = id

def outgoingControlEdges (id : String) : List Edge :=
  definition.edges.filter fun edge => controlEdge edge && edge.sourceStepId = id

def Controls (source target : String) : Prop :=
  ∃ edge ∈ definition.edges, controlEdge edge = true ∧ edge.sourceStepId = source ∧
    edge.targetStepId = target

def Acyclic : Prop := ∀ id, ¬ TransGen definition.Controls id id

theorem Acyclic.ne {definition : Definition} (h : definition.Acyclic) {source target : String}
    (hcontrols : definition.Controls source target) : source ≠ target := by
  rintro rfl
  exact h source (.single hcontrols)

theorem mem_inbound {definition : Definition} {id : String} {edge : Edge} :
    edge ∈ definition.inboundControlEdges id ↔
      edge ∈ definition.edges ∧ controlEdge edge = true ∧ edge.targetStepId = id := by
  simp [inboundControlEdges]

theorem mem_outgoing {definition : Definition} {id : String} {edge : Edge} :
    edge ∈ definition.outgoingControlEdges id ↔
      edge ∈ definition.edges ∧ controlEdge edge = true ∧ edge.sourceStepId = id := by
  simp [outgoingControlEdges]

/-- `step.retry.max-attempts`, 0 when absent -/
def maxAttempts (step : Step) : Int := step.maxAttempts.getD 0

end Definition

inductive StepStatus
  | pending | ready | running | waiting | succeeded | failed | skipped | cancelled
  deriving DecidableEq, Repr

inductive RunStatus
  | queued | running | waiting | succeeded | failed | cancelled
  deriving DecidableEq, Repr

inductive Selection
  | all
  | only (ids : List String)
  deriving DecidableEq, Repr

/-- The wait of a step: its kind and request. -/
structure Wait where
  kind : Option Lua
  request : Option Lua

structure RunStep where
  status : StepStatus
  attempt : Nat
  input : Lua
  output : Lua
  state : Lua
  nextStepIds : Option Selection
  /-- `(= run-step.skip-reason :unselected)` -/
  unselected : Bool
  reason : Option Lua
  wait : Option Wait
  error : Option Lua
  retryAfterMs : Option Lua
  /-- whether `finished-at` is set -/
  finishedAt : Bool

/-- `new-run-step` -/
def RunStep.new : RunStep where
  status := .pending
  attempt := 0
  input := .empty
  output := .empty
  state := .empty
  nextStepIds := none
  unselected := false
  reason := none
  wait := none
  error := none
  retryAfterMs := none
  finishedAt := false

/-- The fields an update sets. -/
structure StepUpdate where
  status : StepStatus
  attempt : Option Nat := none
  input : Option Lua := none
  output : Option Lua := none
  state : Option Lua := none
  nextStepIds : Option Selection := none
  unselected : Option Bool := none
  reason : Option Lua := none
  wait : Option Wait := none
  error : Option Lua := none
  retryAfterMs : Option Lua := none
  finishedAt : Bool := false

/-- `apply-updates!` -/
def RunStep.update (step : RunStep) (updates : StepUpdate) : RunStep where
  status := updates.status
  attempt := updates.attempt.getD step.attempt
  input := updates.input.getD step.input
  output := updates.output.getD step.output
  state := updates.state.getD step.state
  nextStepIds := updates.nextStepIds <|> step.nextStepIds
  unselected := updates.unselected.getD step.unselected
  reason := updates.reason <|> step.reason
  wait := updates.wait <|> step.wait
  error := updates.error <|> step.error
  retryAfterMs := updates.retryAfterMs <|> step.retryAfterMs
  finishedAt := updates.finishedAt || step.finishedAt

@[simp] theorem RunStep.update_status (step : RunStep) (updates : StepUpdate) :
    (step.update updates).status = updates.status := rfl

@[simp] theorem RunStep.update_attempt (step : RunStep) (updates : StepUpdate) :
    (step.update updates).attempt = updates.attempt.getD step.attempt := rfl

def terminalSuccess (status : StepStatus) : Bool := status = .succeeded || status = .skipped

def terminal : StepStatus → Bool
  | .succeeded | .failed | .skipped | .cancelled => true
  | _ => false

inductive Event
  | runCreated
  | runStarted
  | stepReady (stepId : String)
  | stepStarted (stepId : String) (resume : Bool)
  | stepSucceeded (stepId : String)
  | stepSkipped (stepId : String) (sourceStepId : Option String) (reason : Option Lua)
  | stepWaiting (stepId : String) (waitKind : Option Lua)
  | stepRetried (stepId : String) (attempt : Nat) (delayMs : Option Lua)
  | stepFailed (stepId : String) (error : Lua)
  | stepCancelled (stepId : String) (reason : Option Lua)
  | runFailed (error : Option Lua)
  | runCancelled (reason : Option Lua)
  | runWaiting
  | runSucceeded

/-- The event says that the step has succeeded or was skipped. -/
def Event.completes (id : String) : Event → Prop
  | .stepSucceeded stepId => stepId = id
  | .stepSkipped stepId _ _ => stepId = id
  | _ => False

structure Run where
  id : String
  status : RunStatus
  input : Lua
  output : Lua
  error : Option Lua
  steps : AList fun _ : String => RunStep
  events : List Event

namespace Run

def step (run : Run) (id : String) : Option RunStep := run.steps.lookup id

def status? (run : Run) (id : String) : Option StepStatus := (run.step id).map RunStep.status

/-- `upsert-run-step` -/
def upsertStep (run : Run) (id : String) (updates : StepUpdate) : Run :=
  { run with steps := run.steps.insert id (((run.step id).getD .new).update updates) }

@[simp] theorem step_upsertStep_self (run : Run) (id : String) (updates : StepUpdate) :
    (run.upsertStep id updates).step id = some (((run.step id).getD .new).update updates) :=
  AList.lookup_insert _

theorem step_upsertStep_ne {run : Run} {id other : String} {updates : StepUpdate}
    (h : other ≠ id) : (run.upsertStep id updates).step other = run.step other :=
  AList.lookup_insert_ne h

theorem step_upsertStep {run : Run} {id : String} {old : RunStep} (h : run.step id = some old)
    (updates : StepUpdate) (other : String) :
    (run.upsertStep id updates).step other =
      if other = id then some (old.update updates) else run.step other := by
  split_ifs with heq
  · rw [heq, step_upsertStep_self, h, Option.getD_some]
  · exact step_upsertStep_ne heq

@[simp] theorem events_upsertStep (run : Run) (id : String) (updates : StepUpdate) :
    (run.upsertStep id updates).events = run.events := rfl

def appendEvent (run : Run) (event : Event) : Run := { run with events := run.events ++ [event] }

@[simp] theorem step_appendEvent (run : Run) (event : Event) (id : String) :
    (run.appendEvent event).step id = run.step id := rfl

def anyStatus (run : Run) (status : StepStatus) : Bool :=
  run.steps.entries.any fun entry => entry.2.status = status

def unresolvedPending (run : Run) : Bool :=
  run.anyStatus .pending || run.anyStatus .ready || run.anyStatus .running

def allTerminalSuccess (run : Run) : Bool :=
  run.steps.entries.all fun entry => terminalSuccess entry.2.status

def outputFromSteps (run : Run) : Lua :=
  .record ((run.steps.entries.filter fun entry => entry.2.status = .succeeded).map
    fun entry => (entry.1, entry.2.output))

end Run

end Space2.Workflows
