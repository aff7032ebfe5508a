import Mathlib.Data.List.Dedup
import Mathlib.Data.List.Sort
import Space2.Board.ReferenceState
import Space2.Graph.ReferenceState
import Space2.ReferenceLifecycle.Persistence

/-!
# Durable records and the references they hold

A record keeps the fields the lifecycle reads and, as the type `M`, the fields it only carries
along. Its address follows from its scheme and id. A site is one place of a record that holds a
key; an entity does not count an empty key as a reference, a board does. A library is a set of
record files as the stores admit them: one file for each address, ids that are filename components,
and definitions whose steps have ids of their own.
-/

namespace Space2.ReferenceLifecycle
open Base

variable {M : Type}

structure StringEntity where
  id : String
  value : String
  createdAt : Int
  updatedAt : Int
  deriving DecidableEq, Repr

/-- A list entity or a notebook. -/
structure ItemsRecord (M : Type) where
  id : String
  items : List Key
  updatedAt : Int
  fields : M
  deriving DecidableEq, Repr

structure DictEntity (M : Type) where
  id : String
  items : List (String × Key)
  updatedAt : Int
  fields : M
  deriving DecidableEq, Repr

structure LinkEntity (M : Type) where
  id : String
  sourceKey : Key
  targetKey : Key
  fields : M
  deriving DecidableEq, Repr

structure Identity (M : Type) where
  id : String
  targetKey : Key
  createdAt : Int
  updatedAt : Int
  metadata : M
  deriving DecidableEq, Repr

structure WorkflowStep (M : Type) where
  id : String
  codeEntityId : String
  fields : M
  deriving DecidableEq, Repr

structure WorkflowEdge (M : Type) where
  sourceStepId : String
  targetStepId : String
  fields : M
  deriving DecidableEq, Repr

structure WorkflowDefinition (M : Type) where
  id : String
  steps : List (WorkflowStep M)
  edges : List (WorkflowEdge M)
  updatedAt : Int
  fields : M
  deriving DecidableEq, Repr

/-- The places of a world that hold the state of a board. -/
inductive BoardSlot
  | state | activity | retained | runtimeSession
  deriving DecidableEq, Repr

def BoardSlot.field : BoardSlot → List FieldStep
  | .state => [.name "board"]
  | .activity => [.name "activity", .name "sessions", .name "board", .name "board-state"]
  | .retained => [.name "runtime", .name "board-state"]
  | .runtimeSession =>
    [.name "runtime", .name "activity-session-state", .name "board", .name "board-state"]

/-- `graph` of a world: several maps, one map, or a state that is itself a map. -/
structure GraphState (M : Type) where
  view : Graph.View M
  maps : Option (List (Graph.Map M))
  graph : Option (Graph.Map M)
  topology : Graph.Topology M
  deriving DecidableEq, Repr

structure GraphSession (M : Type) where
  graphViewState : Option (Graph.View M)
  graphViewStates : Option (List (String × Graph.View M))
  deriving DecidableEq, Repr

structure ShellPanel (M : Type) where
  kind : String
  panel : Graph.Panel M
  deriving DecidableEq, Repr

abbrev Shell (M : Type) := Option (List (ShellPanel M))

structure World (M : Type) where
  id : String
  boards : List (BoardSlot × Board.State M)
  graph : Option (GraphState M)
  activityGraph : Option (GraphSession M)
  runtime : Option (GraphSession M)
  runtimeGraph : Option (GraphSession M)
  pendingCanvas : Shell M
  pendingHud : Shell M
  canvas : Shell M
  hud : Shell M
  fields : M
  deriving DecidableEq, Repr

structure WorldMetadata (M : Type) where
  worldId : String
  mapId : String
  metadata : Graph.Metadata M
  deriving DecidableEq, Repr

/-- A record of some store. A workflow step is a record inside its definition. -/
inductive Value (M : Type)
  | string (entity : StringEntity)
  | code (entity : Replacement)
  | list (entity : ItemsRecord M)
  | dict (entity : DictEntity M)
  | link (entity : LinkEntity M)
  | notebook (notebook : ItemsRecord M)
  | identity (identity : Identity M)
  | workflow (definition : WorkflowDefinition M)
  | step (definitionId : String) (step : WorkflowStep M)
  | world (world : World M)
  | worldMetadata (metadata : WorldMetadata M)
  deriving DecidableEq, Repr

def stepKey (definitionId stepId : String) : Key :=
  address "workflow-step" (definitionId ++ ":" ++ stepId)

namespace Value

def domain : Value M → Option Domain
  | string _ => some .stringEntity
  | code _ => some .codeEntity
  | list _ => some .listEntity
  | dict _ => some .dictEntity
  | link _ => some .linkEntity
  | notebook _ => some .notebook
  | identity _ => some .identity
  | workflow _ => some .workflow
  | step .. | world _ | worldMetadata _ => none

def id : Value M → String
  | string entity => entity.id
  | code entity => entity.id
  | list entity => entity.id
  | dict entity => entity.id
  | link entity => entity.id
  | notebook record => record.id
  | identity record => record.id
  | workflow definition => definition.id
  | step _ record => record.id
  | world record => record.id
  | worldMetadata metadata => metadata.mapId

def address (value : Value M) : Key :=
  match value.domain, value with
  | some domain, value => ReferenceLifecycle.address domain.scheme value.id
  | none, .step definitionId record => stepKey definitionId record.id
  | none, .worldMetadata metadata =>
    ReferenceLifecycle.address "world-metadata" (metadata.worldId ++ ":" ++ metadata.mapId)
  | none, value => ReferenceLifecycle.address "world" value.id

/-- The keys a record is found under: its address and, for a definition, those of its steps. -/
def keys (value : Value M) : List Key :=
  match value with
  | .workflow definition =>
    value.address :: definition.steps.map fun step => stepKey definition.id step.id
  | _ => [value.address]

end Value

/-- A step has no file of its own. -/
def Value.isStep : Value M → Bool
  | .step .. => true
  | _ => false

/-- A record file: its value, its path and the canonical image of its bytes, `none` for no file. -/
structure File (M : Type) where
  value : Value M
  path : String
  check : Option (Value M)
  deriving DecidableEq, Repr

section Sites

def addSite (address : Key) (field : List FieldStep) (target : Key) (kind : SiteKind) :
    List Site :=
  if target = "" then [] else [⟨address, field, target, kind⟩]

def itemSites (address : Key) (kind : SiteKind) (items : List Key) : List Site :=
  items.zipIdx.flatMap fun (key, index) =>
    addSite address [.name "items", .index (index + 1)] key kind

def slotSites (address : Key) (items : List (String × Key)) : List Site :=
  (items.insertionSort fun a b => a.1 ≤ b.1).flatMap fun (slot, key) =>
    addSite address [.name "items", .name slot] key .dictSlot

def stepSites (address : Key) (steps : List (WorkflowStep M)) : List Site :=
  steps.zipIdx.map fun (step, index) =>
    ⟨address, [.name "steps", .index (index + 1), .name "code-entity-id"],
      ReferenceLifecycle.address "code-entity" step.codeEntityId, .workflowCode⟩

def boardSites (address : Key) (slot : BoardSlot) (board : Board.State M) : List Site :=
  board.items.zipIdx.flatMap fun (item, index) =>
    item.subjectKey.toList.map fun key =>
      ⟨address, slot.field ++ [.name "items", .index (index + 1), .name "subject-key"], key,
        .boardSubject⟩

/-- `record-sites!` and its counterparts of the other owners -/
def recordSites (value : Value M) : List Site :=
  match value with
  | .list entity => itemSites value.address .listItem entity.items
  | .notebook notebook => itemSites value.address .notebookItem notebook.items
  | .dict entity => slotSites value.address entity.items
  | .link entity =>
    addSite value.address [.name "source-key"] entity.sourceKey .linkSource ++
      addSite value.address [.name "target-key"] entity.targetKey .linkTarget
  | .identity identity =>
    addSite value.address [.name "target-key"] identity.targetKey .identityTarget
  | .workflow definition => stepSites value.address definition.steps
  | .world world => world.boards.flatMap fun (slot, board) => boardSites value.address slot board
  | .string _ | .code _ | .step .. | .worldMetadata _ => []

end Sites

structure ValidDefinition (definition : WorkflowDefinition M) : Prop where
  stepIds : ∀ step ∈ definition.steps, ValidId step.id
  distinct : (definition.steps.map WorkflowStep.id).Nodup

structure Library (M : Type) where
  files : List (File M)
  whole : ∀ file ∈ files, file.value.isStep = false
  distinct : (files.map fun file => file.value.address).Nodup
  ids : ∀ file ∈ files, file.value.domain ≠ none → ValidId file.value.id
  definitions : ∀ file ∈ files, ∀ definition, file.value = .workflow definition →
    ValidDefinition definition

end Space2.ReferenceLifecycle
