import Space2.ReferenceLifecycle.Persistence

/-!
# Validation of a pending intent

`validateIntent` reads the whole intent against the current files before anything is written.
The journal's path is never trusted: each address is located again through its owner. The lemmas
at the end say what a validated intent guarantees of its changes.
-/

namespace Space2.ReferenceLifecycle
open Base Base.Durable

variable {B V T : Type} (codec : Codec B V T) (session : Session B V T)

/-- The canonical image of the file a change is about. -/
def fileCheck (change : Change B) (disk : Disk B V T) : Except String (Option B) :=
  checkBytes codec change.format (disk.files change.path)

def HoldsAfter (change : Change B) (disk : Disk B V T) : Prop :=
  fileCheck codec change disk = .ok change.afterCheck

def HoldsBefore (change : Change B) (disk : Disk B V T) : Prop :=
  fileCheck codec change disk = .ok change.beforeCheck

instance [DecidableEq B] (change : Change B) (disk : Disk B V T) : Decidable (HoldsAfter codec change disk) := by
  unfold HoldsAfter
  infer_instance

instance [DecidableEq B] (change : Change B) (disk : Disk B V T) :
    Decidable (HoldsBefore codec change disk) := by
  unfold HoldsBefore
  infer_instance

theorem fileCheck_congr {change : Change B} {disk disk' : Disk B V T}
    (h : disk'.files change.path = disk.files change.path) :
    fileCheck codec change disk' = fileCheck codec change disk := by
  rw [fileCheck, fileCheck, h]

theorem holdsAfter_congr {change : Change B} {disk disk' : Disk B V T}
    (h : disk'.files change.path = disk.files change.path) :
    HoldsAfter codec change disk' ↔ HoldsAfter codec change disk := by
  rw [HoldsAfter, HoldsAfter, fileCheck_congr codec h]

section Snapshots

def owningSnapshot (change : Change B) (worlds : Key → Option String) (disk : Disk B V T) :
    Except String (Snapshot B V) :=
  match Domain.ofAddress change.address with
  | some (domain, id) => do
    ensure (change.owner = domain.owner) "change owner/address mismatch"
    ensure (change.format = domain.format) "change format mismatch"
    snapshotRecord codec session domain id disk
  | none => do
    ensure (change.owner = .worlds) "unsupported durable change owner/address"
    ensure (change.format = .json) "world change format mismatch"
    match worlds change.address with
    | none => throw "world change address missing from owner inventory"
    | some path => snapshot codec session path .json codec.decodeJson disk

def verifiedSnapshot (change : Change B) (worlds : Key → Option String) (disk : Disk B V T) :
    Except String (Snapshot B V) := do
  let snap ← owningSnapshot codec session change worlds disk
  ensure (snap.path = change.path) ("change path mismatch: " ++ change.address)
  return snap

def assertState [DecidableEq B] (change : Change B) (snap : Snapshot B V) : Except String Unit :=
  ensure (snap.check = change.beforeCheck ∨ snap.check = change.afterCheck)
    ("pending conflict at " ++ change.address ++ " (" ++ change.path ++ ")")

variable {codec session}

theorem owningSnapshot_check {change : Change B} {worlds : Key → Option String}
    {disk : Disk B V T} {snap : Snapshot B V}
    (h : owningSnapshot codec session change worlds disk = .ok snap) :
    snap.bytes = disk.files snap.path ∧
      checkBytes codec change.format (disk.files snap.path) = .ok snap.check := by
  unfold owningSnapshot at h
  split at h
  next domain id _ =>
    simp only [bind_eq_ok, ensure_eq_ok] at h
    obtain ⟨-, -, -, hformat, h⟩ := h
    rw [hformat]
    exact (snapshotRecord_check codec session h).2
  next =>
    simp only [bind_eq_ok, ensure_eq_ok] at h
    obtain ⟨-, -, -, hformat, h⟩ := h
    split at h
    next => simp at h
    next path _ =>
      obtain ⟨rfl, hbytes, hcheck⟩ := snapshot_check codec session h
      rw [hformat]
      exact ⟨hbytes, hcheck⟩

theorem verifiedSnapshot_check {change : Change B} {worlds : Key → Option String}
    {disk : Disk B V T} {snap : Snapshot B V}
    (h : verifiedSnapshot codec session change worlds disk = .ok snap) :
    snap.path = change.path ∧ snap.bytes = disk.files change.path ∧
      fileCheck codec change disk = .ok snap.check := by
  simp only [verifiedSnapshot, bind_eq_ok, ensure_eq_ok, pure_eq_ok] at h
  obtain ⟨snap', howning, -, hpath, rfl⟩ := h
  obtain ⟨hbytes, hcheck⟩ := owningSnapshot_check howning
  rw [hpath] at hbytes hcheck
  exact ⟨hpath, hbytes, hcheck⟩

end Snapshots

variable [DecidableEq B]

section Records

def sourceAddress (key : Option Key) : Except String Key := do
  let (scheme, id) ← target key
  match scheme with
  | .workflowStep => return "workflow:" ++ String.ofList (beforeColon id)
  | _ => return key.getD ""

def isWorkflowStep (key : Option Key) : Bool :=
  match key with
  | some key => key.toList.take 14 = "workflow-step:".toList
  | none => false

/-- `workflow-source?` -/
def workflowSource (intent : Intent B V T) (change : Change B) : Except String Bool := do
  if isWorkflowStep intent.operation.sourceKey then
    let address ← sourceAddress intent.operation.sourceKey
    return change.address = address
  else return false

/-- The last change at the address of the requested source. -/
def requestedChange (intent : Intent B V T) : Except String (Change B) := do
  let address ← sourceAddress intent.request.sourceKey
  match (intent.changes.filter (·.address = address)).getLast? with
  | some change => return change
  | none => throw "pending source change missing"

def Scheme.domain : Scheme → Domain
  | .stringEntity => .stringEntity
  | .codeEntity => .codeEntity
  | .listEntity => .listEntity
  | .dictEntity => .dictEntity
  | .linkEntity => .linkEntity
  | .identity => .identity
  | .notebook => .notebook
  | .workflowStep => .workflow

def stepOf (id : String) : String := String.ofList (fromColon id).tail

def decodedSource (key : Option Key) (image : Option B) : Except String V := do
  let (scheme, id) ← target key
  match image with
  | none => throw "record bytes must be string or false"
  | some bytes =>
    let value ← codec.decode scheme.domain bytes
    match scheme with
    | .workflowStep =>
      match ((codec.steps value).filter (codec.recordId · = stepOf id)).getLast? with
      | some step => return step
      | none => throw "pending source step absent from before-image"
    | _ => return value

def assertSourceAfter (key : Option Key) (image check : Option B) : Except String Unit := do
  let (scheme, id) ← target key
  match scheme with
  | .workflowStep =>
    match image, check with
    | some bytes, some _ =>
      let definition ← codec.decode .workflow bytes
      ensure (codec.recordId definition = String.ofList (beforeColon id))
        "pending source definition id mismatch"
      (codec.steps definition).forM fun step =>
        ensure (codec.recordId step ≠ stepOf id) "pending source step remains in after-image"
    | _, _ => throw "pending source definition must survive step deletion"
  | _ => ensure (image = none ∧ check = none) "pending source retirement requires absence"

def validateRetirement (intent : Intent B V T) (change : Change B) : Except String Unit :=
  if change.phase = .retire ∧ ¬ (change.afterBytes = none ∧ change.afterCheck = none) then do
    let source ← workflowSource intent change
    ensure (source = true) "pending retire change requires absence"
  else return ()

def validPhase (phase : Phase) : Prop := phase = .replacement ∨ phase = .incoming ∨ phase = .retire

instance (phase : Phase) : Decidable (validPhase phase) := by unfold validPhase; infer_instance

def knownOwner (owner : OwnerId) : Prop := owner ∈ ownerIds

instance (owner : OwnerId) : Decidable (knownOwner owner) := by unfold knownOwner; infer_instance

/-- Checks one change and adds its comparison path to those already taken. -/
def validateChange (change : Change B) (worlds : Key → Option String) (disk : Disk B V T)
    (paths : List String) : Except String (List String) := do
  ensure (knownOwner change.owner) "unknown pending change owner"
  ensure (validPhase change.phase) "invalid change phase"
  let after ← checkBytes codec change.format change.afterBytes
  ensure (after = change.afterCheck) "frozen after-check mismatch"
  let before ← checkBytes codec change.format change.beforeCheck
  ensure (before = change.beforeCheck) "noncanonical before-check"
  let snap ← verifiedSnapshot codec session change worlds disk
  let path := session.comparisonPath snap.path
  ensure (path ∉ paths) ("duplicate durable path: " ++ path)
  assertState change snap
  return path :: paths

def validateSource (intent : Intent B V T) : Except String Unit :=
  if intent.operation.kind = .migrate then
    ensure (intent.sourceFingerprint.isNone = true) "migration must not carry source fingerprint"
  else do
    ensure (intent.operation.sourceKey = intent.request.sourceKey) "pending source mismatch"
    let source ← requestedChange intent
    Except.mapError (diagnostic intent (some source.owner) (some source)) do
      let step ← workflowSource intent source
      ensure (if step then
          intent.operation.kind = .delete ∧ source.phase ≠ .replacement
        else source.phase = .retire) "pending source change phase mismatch"
      match intent.sourceFingerprint with
      | none => throw "pending source fingerprint mismatch"
      | some fingerprint =>
        ensure (fingerprint.path = source.path ∧ fingerprint.format = source.format ∧
          fingerprint.beforeCheck = source.beforeCheck) "pending source fingerprint mismatch"
        let record ← decodedSource codec intent.request.sourceKey source.beforeCheck
        ensure (codec.stableJson record = codec.stableJson fingerprint.record)
          "pending source record mismatch"
        assertSourceAfter codec intent.request.sourceKey source.afterBytes source.afterCheck

end Records

section Preparations

def captureRoles : List String := ["board", "maps", "views", "metadata"]

abbrev Namespace := OwnerId × String × Option String

/-- `capture!` of the plan: one capture for each namespace, with the same known roles before and
after. -/
def appendCapture (owner : OwnerId) (taken : List Namespace) (capture : Capture T) :
    Except String (List Namespace) := do
  ensure (capture.owner = owner) "runtime capture owner namespace mismatch"
  ensure (owner = .runtime) "only runtime owner may capture transient state"
  let _ ← requireId capture.worldId
  match capture.mapId with
  | some id => let _ ← requireId id
  | none => pure ()
  let name := (owner, capture.worldId, capture.mapId)
  ensure (name ∉ taken) "duplicate runtime capture"
  ensure (∀ role ∈ (capture.before ++ capture.after).map Prod.fst, role ∈ captureRoles)
    "unsupported runtime capture schema"
  ensure (∀ role ∈ captureRoles,
      (role ∈ capture.before.map Prod.fst ↔ role ∈ capture.after.map Prod.fst))
    "runtime capture role presence mismatch"
  return name :: taken

def appendChange (owner : OwnerId) (paths : List String) (change : Change B) :
    Except String (List String) := do
  ensure (change.owner = owner) "change owner namespace mismatch"
  ensure (owner ≠ .runtime) "runtime owner cannot produce durable changes"
  let path := session.comparisonPath change.path
  ensure (path ∉ paths) ("duplicate durable path: " ++ path)
  let after ← checkBytes codec change.format change.afterBytes
  ensure (after = change.afterCheck) "invalid frozen after-check"
  ensure (validPhase change.phase) "invalid change phase"
  return path :: paths

structure Appended (B T : Type) where
  paths : List String
  captures : List Namespace
  changes : List (Change B)
  runtimeState : List (Capture T)

/-- `append!` of the plan: the preparation of one owner joins those before it. -/
def append (out : Appended B T) (owner : OwnerId) (changes : List (Change B))
    (captures : List (Capture T)) : Except String (Appended B T) := do
  let paths ← changes.foldlM (appendChange codec session owner) out.paths
  let taken ← captures.foldlM (appendCapture owner) out.captures
  return ⟨paths, taken, out.changes ++ changes, out.runtimeState ++ captures⟩

def validatePreparations (intent : Intent B V T) : Except String Unit := do
  let out ← session.owners.foldlM (fun out owner =>
    (append codec session out owner (intent.changes.filter (·.owner = owner))
      (intent.runtimeState.filter (·.owner = owner))).mapError
        (diagnostic intent (some owner) none)) ⟨[], [], [], []⟩
  ensure (out.runtimeState.length = intent.runtimeState.length)
    "unknown runtime capture owner namespace"
  codec.roundTrip out.changes out.runtimeState

end Preparations

def validateRecord (intent : Intent B V T) (worlds : Key → Option String) (disk : Disk B V T)
    (paths : List String) (change : Change B) : Except String (List String) :=
  Except.mapError (diagnostic intent (some change.owner) (some change)) do
    validateRetirement intent change
    validateChange codec session change worlds disk paths

/-- All checks of `validate-intent`, in its order. It yields the paths of the worlds inventory. -/
def validateIntent (intent : Intent B V T) (disk : Disk B V T) :
    Except String (Key → Option String) :=
  Except.mapError (diagnostic intent none none) do
    ensure (intent.version = 1) "unsupported pending intent version"
    ensure (intent.request.kind = intent.operation.kind) "pending request/operation mismatch"
    ensure (intent.operation.kind = .migrate ∨ intent.operation.kind = .delete ∨
      intent.operation.kind = .morph) "unsupported pending operation"
    validatePreparations codec session intent
    let worlds ← (session.worlds disk.files).mapError (diagnostic intent (some .worlds) none)
    validateSource codec intent
    let _ ← intent.changes.foldlM (validateRecord codec session intent worlds disk) []
    return worlds

section Guarantees
variable {codec session}

theorem validateChange_ok {change : Change B} {worlds : Key → Option String} {disk : Disk B V T}
    {paths paths' : List String}
    (h : validateChange codec session change worlds disk paths = .ok paths') :
    paths' = session.comparisonPath change.path :: paths ∧
      session.comparisonPath change.path ∉ paths ∧
      checkBytes codec change.format change.afterBytes = .ok change.afterCheck ∧
      (HoldsBefore codec change disk ∨ HoldsAfter codec change disk) := by
  simp only [validateChange, bind_eq_ok, ensure_eq_ok, pure_eq_ok, assertState] at h
  obtain ⟨-, -, -, -, after, hafter, -, rfl, -, -, -, -, snap, hsnap, -, hnew, -, hstate, rfl⟩ := h
  obtain ⟨hpath, -, hcheck⟩ := verifiedSnapshot_check hsnap
  rw [hpath] at hnew ⊢
  refine ⟨rfl, hnew, hafter, ?_⟩
  rcases hstate with hbefore | hdone
  · exact .inl (hcheck.trans (congrArg _ hbefore))
  · exact .inr (hcheck.trans (congrArg _ hdone))

theorem validateSource_ok {intent : Intent B V T} (h : validateSource codec intent = .ok ()) :
    (intent.operation.kind = .migrate ∧ intent.sourceFingerprint = none) ∨
    (intent.operation.kind ≠ .migrate ∧ ∃ source fingerprint, requestedChange intent = .ok source ∧
      intent.sourceFingerprint = some fingerprint ∧ fingerprint.path = source.path) := by
  unfold validateSource at h
  split at h
  next hkind => exact .inl ⟨hkind, by simpa using h⟩
  next hkind =>
    simp only [bind_eq_ok, ensure_eq_ok, mapError_eq_ok] at h
    obtain ⟨-, -, source, hsource, step, -, -, -, h⟩ := h
    split at h
    next => simp at h
    next fingerprint hfingerprint =>
      simp only [bind_eq_ok, ensure_eq_ok] at h
      obtain ⟨-, ⟨hpath, -⟩, -⟩ := h
      exact .inr ⟨hkind, source, fingerprint, hsource, hfingerprint, hpath⟩

variable (codec session) in
/-- What validation against the current files establishes. -/
structure Admitted (intent : Intent B V T) (disk : Disk B V T) : Prop where
  distinct : (intent.changes.map fun change => session.comparisonPath change.path).Nodup
  frozen : ∀ change ∈ intent.changes,
    checkBytes codec change.format change.afterBytes = .ok change.afterCheck
  state : ∀ change ∈ intent.changes, HoldsBefore codec change disk ∨ HoldsAfter codec change disk
  source : (intent.operation.kind = .migrate ∧ intent.sourceFingerprint = none) ∨
    (intent.operation.kind ≠ .migrate ∧ ∃ source fingerprint, requestedChange intent = .ok source ∧
      intent.sourceFingerprint = some fingerprint ∧ fingerprint.path = source.path)

theorem validateIntent_ok {intent : Intent B V T} {disk : Disk B V T}
    {worlds : Key → Option String} (h : validateIntent codec session intent disk = .ok worlds) :
    Admitted codec session intent disk := by
  simp only [validateIntent, mapError_eq_ok, bind_eq_ok] at h
  obtain ⟨-, -, -, -, -, -, -, -, worlds', -, ⟨⟩, hsource, paths, hchanges, -⟩ := h
  have hstep : ∀ seen change seen',
      validateRecord codec session intent worlds' disk seen change = .ok seen' →
      seen' = session.comparisonPath change.path :: seen ∧
      session.comparisonPath change.path ∉ seen ∧
      checkBytes codec change.format change.afterBytes = .ok change.afterCheck ∧
      (HoldsBefore codec change disk ∨ HoldsAfter codec change disk) := by
    intro seen change seen' hrecord
    simp only [validateRecord, mapError_eq_ok, bind_eq_ok] at hrecord
    obtain ⟨-, -, hchange⟩ := hrecord
    exact validateChange_ok hchange
  obtain ⟨hdistinct, hall⟩ := foldlM_seen hstep hchanges
  exact ⟨hdistinct, fun change hc => (hall change hc).2.1, fun change hc => (hall change hc).2.2,
    validateSource_ok hsource⟩

omit [DecidableEq B] in
theorem Admitted.paths_nodup {intent : Intent B V T} {disk : Disk B V T}
    (h : Admitted codec session intent disk) : (intent.changes.map Change.path).Nodup := by
  have hmap : (intent.changes.map Change.path).map session.comparisonPath =
      intent.changes.map fun change => session.comparisonPath change.path := by simp
  exact List.Nodup.of_map session.comparisonPath (hmap ▸ h.distinct)

end Guarantees

end Space2.ReferenceLifecycle
