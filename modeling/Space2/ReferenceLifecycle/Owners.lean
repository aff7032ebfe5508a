import Space2.Base.KeepFirst
import Space2.ReferenceLifecycle.Records

/-!
# The owners of records

Each owner lists its records and the sites in them, names the keys that have to go when others go,
and prepares the durable changes of an operation on its records. The lists an owner hands out are
sorted, so they do not depend on the order in which files are found.
-/

namespace Space2.ReferenceLifecycle
open Base

variable {M : Type}

structure Inventory (M : Type) where
  records : List (Key × File M)
  sites : List Site

/-- `table.sort` on keys -/
def sortedKeys (keys : List Key) : List Key := keys.insertionSort (· ≤ ·)

@[simp] theorem mem_sortedKeys {key : Key} {keys : List Key} :
    key ∈ sortedKeys keys ↔ key ∈ keys := List.mem_insertionSort _

def Domain.extension : Domain → String
  | .stringEntity => ".md"
  | _ => ".json"

/-- `R.record-entries` of the directory of a domain -/
def recordEntries (files : List (File M)) (domain : Domain) : List (File M) :=
  (files.filter (·.value.domain = some domain)).insertionSort fun a b =>
    a.value.id ++ domain.extension ≤ b.value.id ++ domain.extension

@[simp] theorem mem_recordEntries {files : List (File M)} {domain : Domain} {file : File M} :
    file ∈ recordEntries files domain ↔ file ∈ files ∧ file.value.domain = some domain := by
  simp [recordEntries]

def fileAt? (files : List (File M)) (address : Key) : Option (File M) :=
  files.find? (·.value.address = address)

def ownInventory (records : List (File M)) : Inventory M where
  records := records.flatMap fun file => file.value.keys.map (·, file)
  sites := records.flatMap fun file => recordSites file.value

/-- `R.make-change`: the images are their own canonical form here. -/
def makeChange (owner : OwnerId) (file : File M) (after : Option (Value M)) (format : Format)
    (phase : Phase) : Change (Value M) where
  owner := owner
  address := file.value.address
  path := file.path
  format := format
  phase := phase
  beforeCheck := file.check
  afterCheck := after
  afterBytes := after

/-- The records of an inventory in the order of their addresses, each one once. -/
def byAddress (records : List (Key × File M)) : List (File M) :=
  ((records.filter fun entry => entry.1 = entry.2.value.address).map Prod.snd).insertionSort
    fun a b => a.value.address ≤ b.value.address

@[simp] theorem mem_byAddress {records : List (Key × File M)} {file : File M} :
    file ∈ byAddress records ↔ (file.value.address, file) ∈ records := by
  simp only [byAddress, List.mem_insertionSort, List.mem_map, List.mem_filter, decide_eq_true_eq]
  constructor
  · rintro ⟨⟨key, other⟩, ⟨hmem, hkey⟩, hsame⟩
    simp only at hkey hsame
    rw [← hsame, ← hkey]
    exact hmem
  · intro hmem
    exact ⟨_, ⟨hmem, rfl⟩, rfl⟩

def supportedKind (kind : Kind) : Prop := kind = .delete ∨ kind = .morph ∨ kind = .migrate

instance (kind : Kind) : Decidable (supportedKind kind) := by
  unfold supportedKind
  infer_instance

namespace EntitiesOwner

def inventory (files : List (File M)) : Inventory M :=
  ownInventory ((Domain.all.filter (·.owner = .entities)).flatMap (recordEntries files))

def expand (inventory : Inventory M) (operation : Operation) : List Key :=
  if operation.kind = .delete then
    sortedKeys ((inventory.sites.filter fun site =>
      (site.kind = .linkSource || site.kind = .linkTarget) &&
        operation.retiring.contains site.targetKey).map Site.address).dedup
  else []

section Prepare
variable (operation : Operation)

def kept (key : Key) : Bool := !(operation.kind = .delete && operation.retiring.contains key)

/-- Identities stay unique in a list unless the operation only deletes. -/
def unique (key : Key) : Bool := operation.kind ≠ .delete && isIdentity key

/-- `transformed-items` of a list -/
def transformedItems (items : List Key) : List Key :=
  keepFirst (unique operation) ((items.filter (kept operation)).map (rewrite operation))

/-- `transformed-items` of a dictionary -/
def transformedSlots (items : List (String × Key)) : List (String × Key) :=
  (items.filter fun item => kept operation item.2).map fun item => (item.1, rewrite operation item.2)

def changedValue : Value M → Value M
  | .list entity => .list { entity with items := transformedItems operation entity.items }
  | .notebook record => .notebook { record with items := transformedItems operation record.items }
  | .dict entity => .dict { entity with items := transformedSlots operation entity.items }
  | .link entity => .link { entity with
      sourceKey := rewrite operation entity.sourceKey
      targetKey := rewrite operation entity.targetKey }
  | value => value

/-- Links have no `updated-at`. -/
def touched : Value M → Value M
  | .list entity => .list { entity with updatedAt := operation.timestamp }
  | .notebook record => .notebook { record with updatedAt := operation.timestamp }
  | .dict entity => .dict { entity with updatedAt := operation.timestamp }
  | value => value

def format (value : Value M) : Format :=
  match value with
  | .string _ => .string
  | _ => .json

def prepareRecord [DecidableEq M] (file : File M) : Option (Change (Value M)) :=
  if operation.retiring.contains file.value.address then
    some (makeChange .entities file none (format file.value) .retire)
  else if changedValue operation file.value ≠ file.value then
    some (makeChange .entities file (some (touched operation (changedValue operation file.value)))
      (format file.value) .incoming)
  else none

/-- `normalize-name`: `:nil` is the text `nil`. -/
def normalizeName (name : String) : String := if name = "nil" then "" else name

def normalizeKernel (kernel : Kernel) : Kernel :=
  if kernel = .text "nil" ∨ kernel = .text "" then .number 0 else kernel

/-- `record` of the code store -/
def codeRecord (entity : Replacement) : Replacement :=
  { entity with
    name := normalizeName entity.name
    source := normalizeName entity.source
    language := if normalizeName entity.language = "" then "fnl" else normalizeName entity.language
    kernel := normalizeKernel entity.kernel }

/-- The change that writes the replacement of a morph. -/
def prepareReplacement (files : List (File M)) (recordPath : Domain → String → Except String String) :
    Except String (List (Change (Value M))) :=
  match operation.kind, operation.replacement with
  | .morph, some replacement =>
    match operation.targetKey.bind Domain.ofAddress with
    | some (.codeEntity, id) => do
      ensure (replacement.id = id) "morph replacement id mismatch"
      let path ← recordPath .codeEntity id
      ensure ((fileAt? files (address "code-entity" id)).isNone = true)
        "morph replacement already exists"
      return [makeChange .entities ⟨.code replacement, path, none⟩
        (some (.code (codeRecord replacement))) .json .replacement]
    | _ => throw ("unsupported entity address: " ++ operation.targetKey.getD "")
  | _, _ => return []

def prepare [DecidableEq M] (files : List (File M))
    (recordPath : Domain → String → Except String String) (inventory : Inventory M) :
    Except String (List (Change (Value M))) := do
  ensure (supportedKind operation.kind) "unsupported lifecycle operation"
  let replacement ← prepareReplacement operation files recordPath
  return (byAddress inventory.records).filterMap (prepareRecord operation) ++ replacement

end Prepare

end EntitiesOwner

namespace IdentitiesOwner
variable [EmptyCollection M]

def inventory (files : List (File M)) : Inventory M := ownInventory (recordEntries files .identity)

def expand (inventory : Inventory M) (operation : Operation) : List Key :=
  if operation.kind = .delete then
    sortedKeys ((inventory.sites.filter fun site =>
      operation.retiring.contains site.targetKey).map Site.address)
  else []

variable (operation : Operation)

def existingChange (file : File M) : Option (Change (Value M)) :=
  match file.value with
  | .identity record =>
    if operation.retiring.contains file.value.address then
      some (makeChange .identities file none .json .retire)
    else if operation.kind = .morph ∧ some record.targetKey = operation.sourceKey then
      some (makeChange .identities file (some (.identity { record with
        targetKey := operation.targetKey.getD "", updatedAt := operation.timestamp }))
        .json .incoming)
    else none
  | _ => none

def reservedRecord (candidate : ReservedIdentity) : Identity M where
  id := candidate.id
  targetKey := candidate.targetKey
  createdAt := candidate.createdAt
  updatedAt := candidate.updatedAt
  metadata := ∅

/-- The changes that write the reserved identities; `seen` are the ids taken so far. -/
def reservedChanges (files : List (File M))
    (recordPath : Domain → String → Except String String) :
    List String → List ReservedIdentity → Except String (List (Change (Value M)))
  | _, [] => return []
  | seen, candidate :: rest => do
    let id ← requireId candidate.id
    ensure (id ∉ seen) "duplicate reserved identity id"
    let path ← recordPath .identity id
    ensure ((fileAt? files candidate.address).isNone = true) "reserved identity already exists"
    ensure (¬ (operation.kind = .morph ∧ some candidate.targetKey = operation.sourceKey))
      "reserved morph identity points to retiring representation"
    let changes ← reservedChanges files recordPath (id :: seen) rest
    return makeChange .identities ⟨.identity (reservedRecord candidate), path, none⟩
      (some (.identity (reservedRecord candidate))) .json .replacement :: changes

def prepare (files : List (File M)) (recordPath : Domain → String → Except String String)
    (inventory : Inventory M) : Except String (List (Change (Value M))) := do
  ensure (supportedKind operation.kind) "unsupported lifecycle operation"
  let reserved ← reservedChanges operation files recordPath [] operation.referencePlan.identities
  return (byAddress inventory.records).filterMap (existingChange operation) ++ reserved

end IdentitiesOwner

namespace WorkflowsOwner

def inventory (files : List (File M)) : Inventory M := ownInventory (recordEntries files .workflow)

variable (operation : Operation)

def removedSteps (definition : WorkflowDefinition M) : List String :=
  if operation.kind = .delete then
    (definition.steps.filter fun step =>
      operation.retiring.contains (address "code-entity" step.codeEntityId) ||
        operation.retiring.contains (stepKey definition.id step.id)).map WorkflowStep.id
  else []

def expand (inventory : Inventory M) : List Key :=
  (byAddress inventory.records).flatMap fun file =>
    match file.value with
    | .workflow definition =>
      (removedSteps operation definition).map (stepKey definition.id)
    | _ => []

def dependentEdge (id : String) (edge : WorkflowEdge M) : Bool :=
  edge.sourceStepId = id || edge.targetStepId = id

/-- One round of `prepare-step-removal` -/
def removeStep (deleteDependentEdges : Bool) (candidate : WorkflowDefinition M) (id : String) :
    Except String (WorkflowDefinition M) := do
  ensure (candidate.steps.any (·.id = id) = true) ("missing workflow step: " ++ id)
  ensure (deleteDependentEdges = true ∨ candidate.edges.any (dependentEdge id) = false)
    ("workflow step has dependent edges: " ++ id)
  return { candidate with
    steps := candidate.steps.filter (·.id ≠ id)
    edges := if deleteDependentEdges then candidate.edges.filter (!dependentEdge id ·)
      else candidate.edges }

def prepareStepRemoval (deleteDependentEdges : Bool) (definition : WorkflowDefinition M)
    (ids : List String) : Except String (WorkflowDefinition M) :=
  ids.foldlM (removeStep deleteDependentEdges) definition

def prepareDefinition (file : File M) : Except String (List (Change (Value M))) :=
  match file.value with
  | .workflow definition =>
    if removedSteps operation definition = [] then return []
    else do
      let candidate ← prepareStepRemoval true definition (removedSteps operation definition)
      return [makeChange .workflows file
        (some (.workflow { candidate with updatedAt := operation.timestamp })) .json .incoming]
  | _ => return []

def prepare (inventory : Inventory M) : Except String (List (Change (Value M))) := do
  ensure (supportedKind operation.kind) "unsupported lifecycle operation"
  let changes ← (byAddress inventory.records).mapM (prepareDefinition operation)
  return changes.flatten

end WorkflowsOwner

namespace WorldsOwner
variable (operation : Operation) (targetOf : Key → Option Key)

def rewriteGraph (state : GraphState M) : GraphState M :=
  let out := { state with view := Graph.rewriteView operation state.view }
  match out.maps, out.graph with
  | some maps, _ => { out with maps := some (maps.map (Graph.rewriteMap operation)) }
  | none, some graph => { out with graph := some (Graph.rewriteMap operation graph) }
  | none, none => { out with
      topology := Graph.rewriteTopology operation out.topology
      view := { out.view with own := { out.view.own with
        selection := Graph.rewriteSelection operation out.view.own.selection } } }

def rewriteSession (session : GraphSession M) : GraphSession M where
  graphViewState := session.graphViewState.map (Graph.rewriteView operation)
  graphViewStates := session.graphViewStates.map fun states =>
    states.map fun state => (state.1, Graph.rewriteView operation state.2)

/-- Only graph-owned panels of a shell take part. -/
def rewriteShell (shell : Shell M) : Shell M :=
  shell.map fun panels => panels.filterMap fun panel =>
    if panel.kind = "graph-node-view" then
      (Graph.rewritePanel operation panel.panel).map (⟨panel.kind, ·⟩)
    else some panel

def rewriteBoards (boards : List (BoardSlot × Board.State M)) :
    Except String (List (BoardSlot × Board.State M)) :=
  boards.mapM fun (slot, board) => (slot, ·) <$> Board.rewriteState operation targetOf board

def rewriteWorld (world : World M) : Except String (World M) := do
  let boards ← rewriteBoards operation targetOf world.boards
  return { world with
    boards := boards
    graph := world.graph.map (rewriteGraph operation)
    activityGraph := world.activityGraph.map (rewriteSession operation)
    runtime := world.runtime.map (rewriteSession operation)
    runtimeGraph := world.runtimeGraph.map (rewriteSession operation)
    pendingCanvas := rewriteShell operation world.pendingCanvas
    pendingHud := rewriteShell operation world.pendingHud
    canvas := rewriteShell operation world.canvas
    hud := rewriteShell operation world.hud }

/-- The operation the inventory tries on each world. -/
def idle : Operation where
  kind := .migrate
  sourceKey := none
  targetKey := none
  retiring := []
  updatedIdentityKeys := []
  replacement := none
  referencePlan := ⟨[], []⟩
  timestamp := 0

def isWorld : Value M → Bool
  | .world _ | .worldMetadata _ => true
  | _ => false

def checkWorld (file : File M) : Except String Unit :=
  match file.value with
  | .world world => discard (rewriteWorld idle targetOf world)
  | _ => return ()

def inventory (files : List (File M)) : Except String (Inventory M) := do
  let worlds := files.filter (isWorld ·.value)
  worlds.forM (checkWorld targetOf)
  return ownInventory worlds

def candidate : Value M → Except String (Value M)
  | .world world => .world <$> rewriteWorld operation targetOf world
  | .worldMetadata record => return .worldMetadata { record with
      metadata := Graph.rewriteMetadata operation record.metadata }
  | value => return value

def prepareRecord [DecidableEq M] (file : File M) :
    Except String (List (Change (Value M))) := do
  let after ← candidate operation targetOf file.value
  if file.check = some after then return []
  else return [makeChange .worlds file (some after) .json .incoming]

def prepare [DecidableEq M] (inventory : Inventory M) :
    Except String (List (Change (Value M))) := do
  ensure (supportedKind operation.kind) "unsupported worlds operation"
  let changes ← (byAddress inventory.records).mapM (prepareRecord operation targetOf)
  return changes.flatten

end WorldsOwner

end Space2.ReferenceLifecycle
