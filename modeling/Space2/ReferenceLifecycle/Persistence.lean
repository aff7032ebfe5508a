import Mathlib.Logic.Function.Basic
import Space2.Base.DurableProgram
import Space2.ReferenceLifecycle.Intent

/-!
# Durable records and their owners

The durable state is the record files, the pending intent and the migration marker. A record file
changes by one atomic put or removal. The decoders and serializers of the stores are a `Codec`;
what an attempt meets around the files (path formation and inspection, the inventory of worlds,
listeners, loaded runtimes) is a `Session`, which may differ from attempt to attempt and may fail
anywhere. The owners' `apply!` and `reconcile!` are translated over the two.
-/

namespace Space2.ReferenceLifecycle
open Base Base.Durable

/-- The domains whose records are files of their own. -/
inductive Domain
  | stringEntity | codeEntity | listEntity | dictEntity | linkEntity | identity | notebook
  | workflow
  deriving DecidableEq, Repr

namespace Domain

def scheme : Domain → String
  | stringEntity => "string-entity"
  | codeEntity => "code-entity"
  | listEntity => "list-entity"
  | dictEntity => "dict-entity"
  | linkEntity => "link-entity"
  | identity => "identity"
  | notebook => "notebook"
  | workflow => "workflow"

/-- How a store names its records in its messages. -/
def label : Domain → String
  | stringEntity => "string"
  | codeEntity => "code"
  | listEntity => "list"
  | dictEntity => "dict"
  | linkEntity => "link"
  | identity => "identity"
  | notebook => "notebook"
  | workflow => "workflow"

def owner : Domain → OwnerId
  | identity => .identities
  | workflow => .workflows
  | _ => .entities

def format : Domain → Format
  | stringEntity => .string
  | _ => .json

def all : List Domain :=
  [stringEntity, codeEntity, listEntity, dictEntity, linkEntity, identity, notebook, workflow]

def ofScheme (name : String) : Option Domain := all.find? (·.scheme = name)

/-- The domain and id of a record address. -/
def ofAddress (address : Key) : Option (Domain × String) :=
  match splitKey address with
  | none => none
  | some (name, id) => (ofScheme name).map (·, id)

end Domain

variable {B V T : Type}

/-- The pure functions of the stores and of the JSON bridge. -/
structure Codec (B V T : Type) where
  /-- `R.decode-json`: the parser behind the guard against `null` -/
  decodeJson : B → Except String V
  /-- `json.loads` -/
  loads : B → Except String V
  /-- `json.dumps` -/
  dumps : V → Except String B
  /-- `J.stable-json` -/
  stableJson : V → B
  isTable : V → Bool
  decode : Domain → B → Except String V
  serialize : Domain → V → Except String B
  recordId : V → String
  steps : V → List V
  /-- `R.decode-json (J.stable-json out)` on the aggregated preparations -/
  roundTrip : List (Change B) → List (Capture T) → Except String Unit

/-- Records that are their own bytes, canonical as they stand. -/
def Codec.plain (recordId : V → String) (steps : V → List V) : Codec V V T where
  decodeJson := .ok
  loads := .ok
  dumps := .ok
  stableJson := id
  isTable _ := true
  decode _ := .ok
  serialize _ := .ok
  recordId := recordId
  steps := steps
  roundTrip _ _ := .ok ()

structure Session (B V T : Type) where
  /-- the registered owners, in their order -/
  owners : List OwnerId
  comparisonPath : String → String
  /-- `R.record-path` in the directory of a domain -/
  recordPath : Domain → String → Except String String
  /-- `fs.stat` and `fs.read-file` on a file that exists -/
  readable : String → Except String Unit
  /-- the record paths of the worlds inventory, by address -/
  worlds : (String → Option B) → Except String (Key → Option String)
  /-- the path `owned-path` of the worlds owner forms for an address -/
  worldPath : Key → Except String String
  /-- the records a store holds in memory -/
  cached : Key → Option V
  /-- publication to caches, listeners and loaded worlds after a change -/
  publish : Change B → Except String Unit
  reconcileRuntime : List (Capture T) → Except String Unit
  emitCommitted : Result V → Except String Unit

/-- A session in which nothing fails and no world is known. -/
def Session.plain : Session B V T where
  owners := ownerIds
  comparisonPath := id
  recordPath domain id := .ok (domain.scheme ++ "/" ++ id)
  readable _ := .ok ()
  worlds _ := .ok fun _ => none
  worldPath _ := .error "unknown owned world address"
  cached _ := none
  publish _ := .ok ()
  reconcileRuntime _ := .ok ()
  emitCommitted _ := .ok ()

structure Disk (B V T : Type) where
  files : String → Option B
  pending : Option (Intent B V T)
  migration : Option MigrationReport

inductive Write (B : Type)
  | put (path : String) (bytes : B)
  | remove (path : String)
  | markMigration (report : MigrationReport)
  | clearPending

def Disk.place (disk : Disk B V T) (path : String) (image : Option B) : Disk B V T :=
  { disk with files := Function.update disk.files path image }

@[simp] theorem Disk.place_self (disk : Disk B V T) (path : String) (image : Option B) :
    (disk.place path image).files path = image := Function.update_self ..

theorem Disk.place_other {disk : Disk B V T} {path other : String} {image : Option B}
    (h : other ≠ path) : (disk.place path image).files other = disk.files other :=
  Function.update_of_ne h ..

@[simp] theorem Disk.place_pending (disk : Disk B V T) (path : String) (image : Option B) :
    (disk.place path image).pending = disk.pending := rfl

instance : Commits (Disk B V T) (Write B) where
  commit disk
    | .put path bytes => disk.place path (some bytes)
    | .remove path => disk.place path none
    | .markMigration report => { disk with migration := some report }
    | .clearPending => { disk with pending := none }

@[simp] theorem commit_put (disk : Disk B V T) (path : String) (bytes : B) :
    Commits.commit disk (Write.put path bytes) = disk.place path (some bytes) := rfl

@[simp] theorem commit_remove (disk : Disk B V T) (path : String) :
    Commits.commit disk (Write.remove path) = disk.place path none := rfl

@[simp] theorem commit_markMigration (disk : Disk B V T) (report : MigrationReport) :
    Commits.commit disk (Write.markMigration report) = { disk with migration := some report } := rfl

@[simp] theorem commit_clearPending (disk : Disk B V T) :
    Commits.commit disk Write.clearPending = { disk with pending := none } := rfl

abbrev Durable (B V T : Type) := Program (Disk B V T) (Write B) String

structure Snapshot (B V : Type) where
  path : String
  bytes : Option B
  value : Option V
  check : Option B

section Snapshots
variable (codec : Codec B V T) (session : Session B V T)

def checkBytes (format : Format) (bytes : Option B) : Except String (Option B) :=
  match format, bytes with
  | .unsupported _, _ => throw "unsupported record format"
  | _, none => return none
  | .json, some bytes => (fun value => some (codec.stableJson value)) <$> codec.decodeJson bytes
  | .string, some bytes => return some bytes

/-- `R.snapshot` -/
def snapshot (path : String) (format : Format) (decode : B → Except String V)
    (disk : Disk B V T) : Except String (Snapshot B V) := do
  let _ ← checkBytes codec format none
  match disk.files path with
  | none => return ⟨path, none, none, none⟩
  | some bytes =>
    Except.mapError (fun message => "record read failed at " ++ path ++ ": " ++ message) do
      session.readable path
      let value ← decode bytes
      ensure (codec.isTable value = true) "decoded record must be a table"
      let check ← checkBytes codec format (some bytes)
      return ⟨path, some bytes, some value, check⟩

/-- `snapshot-entity`, `snapshot-notebook` and `snapshot-definition` -/
def snapshotRecord (domain : Domain) (id : String) (disk : Disk B V T) :
    Except String (Snapshot B V) := do
  let path ← session.recordPath domain id
  let snap ← snapshot codec session path domain.format (codec.decode domain) disk
  ensure (snap.value.all (codec.recordId · = id) = true)
    (domain.label ++ " record id mismatch at " ++ snap.path)
  return snap

theorem snapshot_check {path : String} {format : Format} {decode : B → Except String V}
    {disk : Disk B V T} {snap : Snapshot B V}
    (h : snapshot codec session path format decode disk = .ok snap) :
    snap.path = path ∧ snap.bytes = disk.files path ∧
      checkBytes codec format (disk.files path) = .ok snap.check := by
  simp only [snapshot, bind_eq_ok] at h
  obtain ⟨absent, habsent, h⟩ := h
  cases hfile : disk.files path with
  | none =>
    rw [hfile] at h
    obtain rfl := pure_eq_ok.mp h
    cases format with
    | unsupported text => simp [checkBytes] at habsent
    | json => exact ⟨rfl, rfl, rfl⟩
    | string => exact ⟨rfl, rfl, rfl⟩
  | some bytes =>
    rw [hfile] at h
    simp only [mapError_eq_ok, bind_eq_ok, pure_eq_ok] at h
    obtain ⟨-, -, -, -, -, -, check, hcheck, rfl⟩ := h
    exact ⟨rfl, rfl, hcheck⟩

theorem snapshotRecord_check {domain : Domain} {id : String} {disk : Disk B V T}
    {snap : Snapshot B V} (h : snapshotRecord codec session domain id disk = .ok snap) :
    session.recordPath domain id = .ok snap.path ∧ snap.bytes = disk.files snap.path ∧
      checkBytes codec domain.format (disk.files snap.path) = .ok snap.check := by
  simp only [snapshotRecord, bind_eq_ok, pure_eq_ok] at h
  obtain ⟨path, hpath, snap', hsnap, -, -, rfl⟩ := h
  obtain ⟨rfl, hbytes, hcheck⟩ := snapshot_check codec session hsnap
  exact ⟨hpath, hbytes, hcheck⟩

end Snapshots

section Stores
variable [DecidableEq B] (codec : Codec B V T) (session : Session B V T)

def verifyCandidate (id : String) (candidate : V) (bytes check : Option B) (format : Format) :
    Except String Unit := do
  let _ ← requireId id
  ensure (codec.recordId candidate = id) "record id does not match persistence target"
  let actual ← checkBytes codec format bytes
  ensure (actual = check) "prepared record after-check mismatch"

/-- `persist-entity!`, `persist-notebook!` and `persist-definition!` -/
def persist (domain : Domain) (id : String) (change : Change B) (bytes : B) :
    Durable B V T Unit := do
  let candidate ← query fun _ => codec.decode domain bytes
  let image ← query fun _ => codec.serialize domain candidate
  query fun _ => verifyCandidate codec id candidate (some image) change.afterCheck domain.format
  let _ ← query (snapshotRecord codec session domain id)
  let path ← query fun _ => session.recordPath domain id
  write (.put path image)
  query fun _ => session.publish change

def removeIfPresent (path : String) : Durable B V T Unit := do
  let exists? ← query fun disk => return (disk.files path).isSome
  if exists? then write (.remove path) else pure ()

/-- `retire-entity!` and `retire-notebook!` -/
def retire (domain : Domain) (id : String) (change : Change B) : Durable B V T Unit := do
  let held ← query fun disk =>
    match session.cached change.address with
    | some value => return some value
    | none => Snapshot.value <$> snapshotRecord codec session domain id disk
  if held.isSome then
    let path ← query fun _ => session.recordPath domain id
    removeIfPresent path
    query fun _ => session.publish change
  else pure ()

/-- `reconcile-entity!`, `reconcile-notebook!` and `reconcile-definition!`. -/
def reconcileRecord (domain : Domain) (id : String) (change : Change B) (disk : Disk B V T) :
    Except String Unit := do
  if domain = .workflow then
    ensure (change.afterBytes ≠ none) "cannot retire workflow definition during reconciliation"
  let snap ← snapshotRecord codec session domain id disk
  ensure (snap.check = change.afterCheck) (domain.label ++ " reconciliation after-image mismatch")
  let actual ← checkBytes codec domain.format change.afterBytes
  ensure (actual = change.afterCheck) (domain.label ++ " frozen after-check mismatch")
  match change.afterBytes, change.beforeCheck with
  | some bytes, _ =>
    let candidate ← codec.decode domain bytes
    let image ← codec.serialize domain candidate
    verifyCandidate codec id candidate (some image) change.afterCheck domain.format
  | none, some before =>
    let candidate ← codec.decode domain before
    verifyCandidate codec id candidate (some before) change.beforeCheck domain.format
  | none, none => throw "record bytes must be string or false"
  session.publish change

end Stores

section Owners
variable [DecidableEq B] (codec : Codec B V T) (session : Session B V T)

/-- The domains of the entities owner. -/
def domainFor (address : Key) : Except String (Domain × String) :=
  match Domain.ofAddress address with
  | some (domain, id) =>
    if domain.owner = .entities then return (domain, id)
    else throw ("unsupported entity address: " ++ address)
  | none => throw ("unsupported entity address: " ++ address)

def identityFor (address : Key) : Except String (Domain × String) :=
  match Domain.ofAddress address with
  | some (.identity, id) => return (.identity, id)
  | _ => throw "unsupported identity address"

def definitionFor (address : Key) : Except String (Domain × String) :=
  match Domain.ofAddress address with
  | some (.workflow, id) => return (.workflow, id)
  | _ => throw "unsupported workflow address"

/-- What the owners of record files share: the record is looked up and its path compared before a
store writes. -/
def applyRecord (owner : OwnerId) (locate : Key → Except String (Domain × String))
    (mismatch : String)
    (commit : Domain → String → Durable B V T Unit) (change : Change B) : Durable B V T Unit := do
  query fun _ => ensure (change.owner = owner) "wrong change owner"
  let place ← query fun _ => locate change.address
  let snap ← query (snapshotRecord codec session place.1 place.2)
  query fun _ => ensure (change.path = snap.path) mismatch
  commit place.1 place.2

def persistOrRetire (change : Change B) (domain : Domain) (id : String) : Durable B V T Unit :=
  match change.afterBytes with
  | none => retire codec session domain id change
  | some bytes => persist codec session domain id change bytes

namespace Entities

def apply (change : Change B) : Durable B V T Unit :=
  applyRecord codec session .entities domainFor "entity change path mismatch"
    (persistOrRetire codec session change) change

end Entities

namespace Identities

def apply (change : Change B) : Durable B V T Unit :=
  applyRecord codec session .identities identityFor "identity change path mismatch"
    (persistOrRetire codec session change) change

end Identities

namespace Workflows

/-- A definition is only ever rewritten. -/
def apply (change : Change B) : Durable B V T Unit :=
  applyRecord codec session .workflows definitionFor "workflow change path mismatch"
    (fun domain id =>
      match change.afterBytes with
      | none => query fun _ => throw "workflow owner cannot retire definitions"
      | some bytes => persist codec session domain id change bytes) change

end Workflows

def reconcileIn (owner : OwnerId) (locate : Key → Except String (Domain × String))
    (mismatch : String) (change : Change B) (disk : Disk B V T) : Except String Unit := do
  ensure (change.owner = owner) "wrong reconciliation owner"
  let place ← locate change.address
  let snap ← snapshotRecord codec session place.1 place.2 disk
  ensure (change.path = snap.path) mismatch
  reconcileRecord codec session place.1 place.2 change disk

def Entities.reconcile : Change B → Disk B V T → Except String Unit :=
  reconcileIn codec session .entities domainFor "entity reconciliation path mismatch"

def Identities.reconcile : Change B → Disk B V T → Except String Unit :=
  reconcileIn codec session .identities identityFor "identity reconciliation path mismatch"

def Workflows.reconcile : Change B → Disk B V T → Except String Unit :=
  reconcileIn codec session .workflows definitionFor "workflow reconciliation path mismatch"

namespace Worlds

def ownedPath (change : Change B) : Except String String := do
  ensure (change.owner = .worlds) "wrong worlds change owner"
  ensure (change.format = .json) "worlds change format must be json"
  let path ← session.worldPath change.address
  ensure (path = change.path) "worlds change path mismatch"
  return path

def verifiedCandidate (change : Change B) : Except String V := do
  match change.afterBytes with
  | none => throw "worlds owner cannot retire owned records"
  | some bytes =>
    let check ← checkBytes codec .json (some bytes)
    ensure (check = change.afterCheck) "worlds after-check mismatch"
    let candidate ← codec.loads bytes
    ensure (codec.isTable candidate = true) "worlds candidate must be an object"
    let check ← checkBytes codec .json (some (codec.stableJson candidate))
    ensure (check = change.afterCheck) "worlds serialized after-check mismatch"
    return candidate

def writeCandidate (path : String) (change : Change B) (candidate : V) (snap : Snapshot B V) :
    Durable B V T Unit :=
  if snap.check = change.afterCheck then pure ()
  else do
    let image ← query fun _ => codec.dumps candidate
    write (.put path image)

def apply (change : Change B) : Durable B V T Unit := do
  let path ← query fun _ => ownedPath session change
  let candidate ← query fun _ => verifiedCandidate codec change
  let snap ← query (snapshot codec session path .json codec.loads)
  query fun _ => ensure (snap.check = change.beforeCheck ∨ snap.check = change.afterCheck)
    "worlds pending conflict"
  writeCandidate codec path change candidate snap
  query fun _ => session.publish change

def reconcile (change : Change B) (disk : Disk B V T) : Except String Unit := do
  let path ← ownedPath session change
  let _ ← verifiedCandidate codec change
  let snap ← snapshot codec session path .json codec.loads disk
  ensure (snap.check = change.afterCheck) "worlds reconciliation conflict"
  session.publish change

end Worlds

/-- The owner registered under `change.owner` applies a change. -/
def ownerApply (change : Change B) : Durable B V T Unit :=
  match change.owner with
  | .entities => Entities.apply codec session change
  | .identities => Identities.apply codec session change
  | .workflows => Workflows.apply codec session change
  | .worlds => Worlds.apply codec session change
  | .runtime => query fun _ => throw "runtime owner cannot apply durable changes"
  | .unknown _ => query fun _ => throw "unknown pending change owner"

/-- The runtime owner looks at the captures of the intent only, the others at the change only. -/
def ownerReconcile (captures : List (Capture T)) (change : Change B) (disk : Disk B V T) :
    Except String Unit :=
  match change.owner with
  | .entities => Entities.reconcile codec session change disk
  | .identities => Identities.reconcile codec session change disk
  | .workflows => Workflows.reconcile codec session change disk
  | .worlds => Worlds.reconcile codec session change disk
  | .runtime => session.reconcileRuntime captures
  | .unknown _ => throw "unknown pending change owner"

end Owners

end Space2.ReferenceLifecycle
