import Space2.ReferenceLifecycle.Keys
import Space2.Temporal.Timestamps

/-!
# The store of workflow definitions

A definition is held in memory and kept in a file. The file is a record that the decoder checks
field by field; the steps and edges are tables of their own, which the store changes by key. A
mutation works on a copy, writes it, publishes it into the held definition and tells the listeners.
The text between the record and the bytes of its file is not part of this model.
-/
namespace Space2.Workflows
open Base Temporal ReferenceLifecycle

/-- What `normalize-definition` makes of a record. -/
structure StoredDefinition where
  id : String
  name : Lua
  description : Lua
  version : Option Lua
  status : Lua
  parameters : Lua
  steps : List Lua
  edges : List Lua
  createdAt : Int
  updatedAt : Int

section Children

/-- A field of a step or an edge that is a text. -/
def textField (key : String) (child : Lua) : Option String :=
  match child.field key with
  | some (.string text) => some text
  | _ => none

def childId (child : Lua) : Option String := textField "id" child

def findById (items : List Lua) (id : String) : Option Lua := items.find? (childId · = some id)

def removeById (items : List Lua) (id : String) : List Lua := items.filter (childId · ≠ some id)

def dependentEdge (stepId : String) (edge : Lua) : Bool :=
  textField "source-step-id" edge = some stepId || textField "target-step-id" edge = some stepId

def requireStep (definition : StoredDefinition) (stepId : String) : Except String Lua :=
  match findById definition.steps stepId with
  | some step => .ok step
  | none => .error ("missing workflow step: " ++ stepId)

def requireEdge (definition : StoredDefinition) (edgeId : String) : Except String Lua :=
  match findById definition.edges edgeId with
  | some edge => .ok edge
  | none => .error ("missing workflow edge: " ++ edgeId)

end Children

section Decoding

/-- `R.field` without a default -/
def recordField (data : Lua) (key kind : String) : Except String (Option Lua) := do
  ensure (data.isTable = true) "persisted record must be an object"
  match data.field key with
  | none => pure none
  | some value => do
    ensure (value.typeName = kind) ("persisted field " ++ key ++ " must be " ++ kind)
    pure (some value)

def requireRecordId : Option Lua → Except String String
  | some (.string id) => requireId id
  | _ => .error "invalid record id"

def requireArray : Option Lua → Except String (List Lua)
  | none => .ok []
  | some (.table items []) => .ok items
  | some (.table _ _) => .error "record array must have contiguous numeric indices"
  | some _ => .error "record array must be a table"

def checkFields (data : Lua) (kind : String) (keys : List String) : Except String Unit :=
  keys.forM fun key => do
    let _ ← recordField data key kind

def validatePersistedStep (step : Lua) : Except String Unit := do
  let id ← step.index "id"
  let _ ← requireRecordId id
  let code ← recordField step "code-entity-id" "string"
  let _ ← requireRecordId code
  checkFields step "string" ["name"]
  checkFields step "table" ["config", "input-schema", "output-schema", "retry"]
  checkFields step "number" ["timeout-ms"]

/-- The condition of an edge is its user's own payload. -/
def validatePersistedEdge (ids : List String) (edge : Lua) : Except String Unit := do
  let id ← edge.index "id"
  let _ ← requireRecordId id
  let source ← recordField edge "source-step-id" "string"
  let source ← requireRecordId source
  let target ← recordField edge "target-step-id" "string"
  let target ← requireRecordId target
  checkFields edge "string" ["kind", "source-port", "target-port"]
  ensure (source ∈ ids ∧ target ∈ ids) "workflow edge requires existing steps"

/-- The loop over the steps; `ids` are those of the steps before. -/
def validateSteps (ids : List String) : List Lua → Except String (List String)
  | [] => .ok ids
  | step :: rest => do
    validatePersistedStep step
    let id ← requireRecordId (step.field "id")
    ensure (id ∉ ids) "duplicate workflow step id"
    validateSteps (ids ++ [id]) rest

variable (path : String → String)

def definitionField (id fieldPath : String) : TimestampField where
  schemaId := "workflow-definition"
  fieldPath := fieldPath
  filePath := path id

/-- `decode-definition`, from the parsed record on -/
def decodeDefinition (data : Lua) : Except String StoredDefinition := do
  ensure (data.isTable = true) "workflow definition must be an object"
  checkFields data "string" ["name", "description", "status"]
  checkFields data "number" ["version"]
  checkFields data "table" ["parameters"]
  let steps ← recordField data "steps" "table"
  let steps ← requireArray steps
  let edges ← recordField data "edges" "table"
  let edges ← requireArray edges
  let id ← requireRecordId (data.field "id")
  let createdAt ← timestampToEpochSeconds (definitionField path id "created-at")
    (data.field "created-at")
  let updatedAt ← timestampToEpochSeconds (definitionField path id "updated-at")
    (data.field "updated-at")
  let ids ← validateSteps [] steps
  edges.forM (validatePersistedEdge ids)
  pure {
    id := id
    name := (data.field "name").getD (.string "")
    description := (data.field "description").getD (.string "")
    version := some ((data.field "version").getD (.number (.finite 1)))
    status := (data.field "status").getD (.string "draft")
    parameters := (data.field "parameters").getD .empty
    steps := steps
    edges := edges
    createdAt := createdAt
    updatedAt := updatedAt }

/-- `serialize-definition`, up to the text -/
def serializeDefinition (definition : StoredDefinition) : Except String Lua := do
  let id ← requireId definition.id
  let createdAt ← instantToTimestamp (definitionField path id "created-at") definition.createdAt
  let updatedAt ← instantToTimestamp (definitionField path id "updated-at") definition.updatedAt
  pure (.record ([("id", .string id), ("name", definition.name),
    ("description", definition.description), ("status", definition.status),
    ("parameters", definition.parameters), ("steps", .table definition.steps []),
    ("edges", .table definition.edges []), ("created-at", createdAt), ("updated-at", updatedAt)] ++
      definition.version.toList.map fun version => ("version", version)))

end Decoding

section Removal

structure RemovalOptions where
  deleteDependentEdges : Bool

/-- One round of the loop of `prepare-step-removal`. -/
def removeStep (opts : RemovalOptions) (candidate : StoredDefinition) (id : String) :
    Except String StoredDefinition := do
  let _ ← requireStep candidate id
  ensure (opts.deleteDependentEdges = true ∨ candidate.edges.any (dependentEdge id) = false)
    ("workflow step has dependent edges: " ++ id)
  pure { candidate with
    steps := removeById candidate.steps id
    edges := if opts.deleteDependentEdges then candidate.edges.filter (!dependentEdge id ·)
      else candidate.edges }

def prepareStepRemoval (definition : StoredDefinition) (stepIds : List String)
    (opts : RemovalOptions) : Except String StoredDefinition :=
  stepIds.foldlM (removeStep opts) definition

end Removal

end Space2.Workflows
