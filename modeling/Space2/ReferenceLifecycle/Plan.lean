import Space2.Base.Saturation
import Space2.ReferenceLifecycle.Owners
import Space2.ReferenceLifecycle.Validation

/-!
# The plan of a lifecycle operation

A plan reads the inventories of the five owners once. A delete spreads from the source over links,
identities and workflow steps until nothing more has to go; a morph wraps every raw key in an
identity and points the identities of the source at its replacement. The owners then prepare their
changes from the planned operation.
-/

namespace Space2.ReferenceLifecycle
open Base

variable {M T : Type}

/-- What a plan takes from around the stores: paths, fresh ids, the clock and the captures of the
loaded runtimes. -/
structure Planning (M T : Type) where
  session : Session (Value M) (Value M) T
  /-- `Uuid.v4`, called for the n-th time -/
  uuid : Nat → String
  now : Int
  captures : Operation → Except String (List (Capture T))

def Value.steps : Value M → List (Value M)
  | .workflow definition => definition.steps.map (.step definition.id)
  | _ => []

def recordCodec : Codec (Value M) (Value M) T := Codec.plain Value.id Value.steps

abbrev Entry (M : Type) := OwnerId × Inventory M

def mergedRecords (entries : List (Entry M)) : List (Key × File M) :=
  entries.flatMap fun entry => entry.2.records

def allSites (entries : List (Entry M)) : List Site := entries.flatMap fun entry => entry.2.sites

def record? (records : List (Key × File M)) (key : Key) : Option (File M) :=
  (records.find? (·.1 = key)).map Prod.snd

def Value.identityTarget : Value M → Option Key
  | .identity record => some record.targetKey
  | _ => none

def identityTarget (records : List (Key × File M)) (key : Key) : Option Key :=
  (record? records key).bind (·.value.identityTarget)

/-- `identity-store:get-entity` and its target -/
def storedTarget (files : List (File M)) (key : Key) : Option Key :=
  (fileAt? files key).bind (·.value.identityTarget)

def resolve (records : List (Key × File M)) (key : Key) : Except String Key :=
  resolveWith "" (identityTarget records) key

def supportedScheme (key : Key) : Bool := ((schemeOf key).bind Scheme.ofName).isSome

section Inventories

def ownerInventory (files : List (File M)) : OwnerId → Except String (Inventory M)
  | .entities => return EntitiesOwner.inventory files
  | .identities => return IdentitiesOwner.inventory files
  | .workflows => return WorkflowsOwner.inventory files
  | .worlds => WorldsOwner.inventory (storedTarget files) files
  | .runtime | .unknown _ => return ⟨[], []⟩

def collectRecord (seen : List Key) (entry : Key × File M) : Except String (List Key) := do
  ensure (entry.1 ∉ seen) ("duplicate inventory key: " ++ entry.1)
  return entry.1 :: seen

def inventories (files : List (File M)) : Except String (List (Entry M)) := do
  let entries ← ownerIds.mapM fun owner => (owner, ·) <$> ownerInventory files owner
  let _ ← (mergedRecords entries).foldlM collectRecord []
  return entries

def validateTerminal (records : List (Key × File M)) (site : Site) : Except String Unit := do
  let terminal ← resolve records site.targetKey
  if supportedScheme terminal then discard (target (some terminal)) else return ()

def validateIdentity (records : List (Key × File M)) (entry : Key × File M) :
    Except String Unit :=
  if isIdentity entry.1 = true then discard (resolve records entry.1) else return ()

/-- `validate-references!` -/
def validateReferences (entries : List (Entry M)) : Except String Unit := do
  (mergedRecords entries).forM (validateIdentity (mergedRecords entries))
  (allSites entries).forM (validateTerminal (mergedRecords entries))

end Inventories

section Closure

def expandOwner (operation : Operation) : Entry M → List Key
  | (.entities, inventory) => EntitiesOwner.expand inventory operation
  | (.identities, inventory) => IdentitiesOwner.expand inventory operation
  | (.workflows, inventory) => WorkflowsOwner.expand operation inventory
  | _ => []

/-- One round of `closure!` over the keys visited before it. -/
def closureRound (entries : List (Entry M)) (operation : Operation) (visited : List Key) :
    Except String (List Key) := do
  let keys := entries.flatMap (expandOwner { operation with retiring := sortedKeys visited })
  keys.forM fun key => discard (target (some key))
  return keys

/-- `closure!`. A round that goes on finds a key of some record, so one round more than there are
records is enough. -/
def closure (entries : List (Entry M)) (operation : Operation) (source : Key) :
    Except String (List Key) :=
  match saturate (closureRound entries operation) ((mergedRecords entries).length + 1) [source] with
  | some visited => sortedKeys <$> visited
  | none => throw "closure did not end"

end Closure

section References

def SiteKind.eligible : SiteKind → Bool
  | .listItem | .notebookItem | .dictSlot | .linkSource | .linkTarget | .boardSubject => true
  | .identityTarget | .workflowCode => false

/-- The first identity, by key, that names the key itself. -/
def directIdentity (records : List (Key × File M)) (key : Key) : Option Key :=
  (sortedKeys ((records.filter fun entry =>
    isIdentity entry.1 && entry.2.value.identityTarget = some key).map Prod.fst)).head?

/-- The rewrites of the raw keys. A key no identity names yet gets a reserved one; `next` counts
the ids drawn so far and `reserved` holds the reserved keys. -/
def planReferences (records : List (Key × File M)) (uuid : Nat → String) (timestamp : Int)
    (retarget : Key → Key) : Nat → List Key → List Key → Except String ReferencePlan
  | _, _, [] => return ⟨[], []⟩
  | next, reserved, key :: rest =>
    match directIdentity records key with
    | some stable => do
      let plan ← planReferences records uuid timestamp retarget next reserved rest
      return ⟨⟨key, stable⟩ :: plan.rewrites, plan.identities⟩
    | none => do
      let stable := address "identity" (uuid next)
      ensure ((record? records stable).isNone = true ∧ stable ∉ reserved)
        "reserved identity collision"
      let plan ← planReferences records uuid timestamp retarget (next + 1) (stable :: reserved) rest
      return ⟨⟨key, stable⟩ :: plan.rewrites,
        ⟨uuid next, retarget key, timestamp, timestamp⟩ :: plan.identities⟩

/-- The identities of a plan in the order of their ids. -/
def ReferencePlan.sorted (plan : ReferencePlan) : ReferencePlan :=
  { plan with identities := plan.identities.insertionSort fun a b => a.id ≤ b.id }

end References

section Morph

/-- A raw key is wrapped when its scheme is not the lifecycle's or its record exists. -/
def wrapped (records : List (Key × File M)) (site : Site) : Bool :=
  site.kind.eligible && site.targetKey ≠ "" && !isIdentity site.targetKey &&
    (!supportedScheme site.targetKey || (record? records site.targetKey).isSome)

/-- The keys a morph wraps, sorted. -/
def rawKeys (entries : List (Entry M)) : List Key :=
  sortedKeys (((allSites entries).filter (wrapped (mergedRecords entries))).map Site.targetKey).dedup

def validatePayload (payload : Option Payload) (source : Value M) : Except String Payload :=
  match payload with
  | none => throw "morph requires payload"
  | some payload => do
    ensure (payload.language = "fnl") "unsupported morph payload"
    match source with
    | .string entity =>
      ensure (payload.source = entity.value) "morph source payload does not match current source"
      return payload
    | _ => throw "morph source payload does not match current source"

/-- `morph-operation!` -/
def morphOperation (planning : Planning M T) (entries : List (Entry M)) (source : Key)
    (held : File M) (operation : Operation) (payload : Option Payload) :
    Except String Operation := do
  let records := mergedRecords entries
  let payload ← validatePayload payload held.value
  let id := planning.uuid 0
  let replacementKey := address "code-entity" id
  ensure ((record? records replacementKey).isNone = true) "replacement id collision"
  let plan ← planReferences records planning.uuid operation.timestamp
    (fun key => if key = source then replacementKey else key) 1 [] (rawKeys entries)
  return { operation with
    targetKey := some replacementKey
    replacement := some ⟨payload, id, operation.timestamp, operation.timestamp⟩
    updatedIdentityKeys := sortedKeys ((records.filter fun entry =>
      isIdentity entry.1 && entry.2.value.identityTarget = some source).map Prod.fst)
    referencePlan := plan.sorted }

end Morph

section Prepare
variable [DecidableEq M] [EmptyCollection M]

inductive Prepared (M T : Type)
  | absent (sourceKey : Key)
  | intent (intent : Intent (Value M) (Value M) T)

def prepared? : Except String (Prepared M T) → Option (Intent (Value M) (Value M) T)
  | .ok (.intent intent) => some intent
  | _ => none

omit [DecidableEq M] [EmptyCollection M] in
theorem prepared?_eq_some {result : Except String (Prepared M T)}
    {intent : Intent (Value M) (Value M) T} :
    prepared? result = some intent ↔ result = .ok (.intent intent) := by
  rcases result with message | ⟨source⟩ | ⟨prepared⟩ <;> simp [prepared?]

def sourceFingerprint (key : Key) (held : File M) :
    Except String (Fingerprint (Value M) (Value M)) := do
  let source ← match isWorkflowStep (some key), held.value with
    | true, value =>
      match (value.steps.filter fun step => stepKey value.id step.id = key).getLast? with
      | some step => pure step
      | none => throw "source step missing from inventory"
    | false, value => pure value
  return {
    path := held.path
    format := if schemeOf key = some "string-entity" then .string else .json
    beforeCheck := held.check
    record := source }

def prepareOwner (planning : Planning M T) (files : List (File M)) (operation : Operation) :
    Entry M → Except String (List (Change (Value M)) × List (Capture T))
  | (.entities, inventory) =>
    (·, []) <$> EntitiesOwner.prepare operation files planning.session.recordPath inventory
  | (.identities, inventory) =>
    (·, []) <$> IdentitiesOwner.prepare operation files planning.session.recordPath inventory
  | (.workflows, inventory) => (·, []) <$> WorkflowsOwner.prepare operation inventory
  | (.worlds, inventory) =>
    (·, []) <$> WorldsOwner.prepare operation (storedTarget files) inventory
  | (.runtime, _) => ([], ·) <$> planning.captures operation
  | (.unknown _, _) => return ([], [])

def aggregateEntry (planning : Planning M T) (files : List (File M)) (operation : Operation)
    (out : Appended (Value M) T) (entry : Entry M) : Except String (Appended (Value M) T) := do
  let preparation ← prepareOwner planning files operation entry
  append recordCodec planning.session out entry.1 preparation.1 preparation.2

/-- `aggregate!` -/
def aggregate (planning : Planning M T) (files : List (File M)) (entries : List (Entry M))
    (operation : Operation) : Except String (Appended (Value M) T) :=
  entries.foldlM (aggregateEntry planning files operation) ⟨[], [], [], []⟩

/-- The operation `prepare` starts from. -/
def newOperation (planning : Planning M T) (kind : Kind) (source : Key) : Operation where
  kind := kind
  sourceKey := some source
  targetKey := none
  retiring := [source]
  updatedIdentityKeys := []
  replacement := none
  referencePlan := ⟨[], []⟩
  timestamp := planning.now

def planOperation (planning : Planning M T) (entries : List (Entry M)) (source : Key)
    (held : File M) (request : Request) : Except String Operation :=
  let operation := newOperation planning request.kind source
  if request.kind = .delete then
    (fun retiring => { operation with retiring := retiring }) <$> closure entries operation source
  else morphOperation planning entries source held operation request.payload

/-- The ids drawn for the operation come before the one of the intent. -/
def drawnIds (operation : Operation) : Nat :=
  operation.replacement.elim 0 fun _ => operation.referencePlan.identities.length + 1

def assemble (planning : Planning M T) (files : List (File M)) (entries : List (Entry M))
    (source : Key) (held : File M) (request : Request) :
    Except String (Intent (Value M) (Value M) T) := do
  let operation ← planOperation planning entries source held request
  let fingerprint ← sourceFingerprint source held
  let out ← aggregate planning files entries operation
  return {
    version := 1
    operationId := planning.uuid (drawnIds operation)
    request := request
    operation := operation
    sourceFingerprint := some fingerprint
    changes := out.changes
    runtimeState := out.runtimeState
    dangling := [] }

/-- `Plan.prepare` -/
def prepare (planning : Planning M T) (files : List (File M)) (request : Request) :
    Except String (Prepared M T) := do
  ensure (request.kind = .delete ∨ request.kind = .morph) "unsupported lifecycle request"
  let (scheme, _) ← target request.sourceKey
  ensure (request.kind = .morph → scheme = .stringEntity) "unsupported morph source"
  let entries ← inventories files
  validateReferences entries
  let source := request.sourceKey.getD ""
  match record? (mergedRecords entries) source with
  | none =>
    ensure (request.kind = .delete) "morph source absent"
    return .absent source
  | some held => .intent <$> assemble planning files entries source held request

end Prepare

end Space2.ReferenceLifecycle
