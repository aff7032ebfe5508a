import Mathlib
import Space2.Base.Raising

/-!
# The registry of graph extensions

An extension is installed into every runtime. Its installer hands over handles,
which are to be unregistered when the installation is taken back: it records them
through a callback, and it returns a table of them. What an installer does is
given by the number of installations before it, so that it may do anything.
-/
namespace Space2.GraphExtensions

open Space2.Base Op

/-! ## What an installer does -/

/-- A value as the registry looks at it; a handle is a table with an `unregister` function. -/
inductive Item (H : Type) where
  | scalar
  | plain
  | handle (handle : H)
deriving DecidableEq, Repr

inductive Key where
  | number (n : Int)
  | other (name : String)
deriving DecidableEq, Repr

inductive Returned (H : Type) where
  | scalar
  /-- A table with its entries, which is a handle itself if it has `unregister`. -/
  | table (bare : Option H) (entries : List (Key × Item H))
deriving DecidableEq, Repr

/-- The calls of `record-handle` with both of their arguments, and how the installer ends. -/
structure Attempt (H : Type) where
  recorded : List (Option (Item H) × Option (Item H))
  outcome : Except String (Returned H)

structure Installer (H : Type) where
  loaders : Attempt H
  morphs : Attempt H

variable {H : Type} [DecidableEq H]

def Item.handles : Item H → List H
  | .handle given => [given]
  | _ => []

def entryHandles (entries : List (Key × Item H)) : List H := entries.flatMap fun entry => entry.2.handles

/-- The handles of a returned value, a bare one first. -/
def Returned.handles : Returned H → List H
  | .scalar => []
  | .table bare entries => bare.toList ++ entryHandles entries

def selected (maybeCtx maybeHandle : Option (Item H)) : Option (Item H) :=
  match maybeHandle with
  | some item => some item
  | none => maybeCtx

/-! ## Collecting the handles of one installation -/

structure Install (H : Type) where
  handles : List H
  unregistered : List H
  /-- All handles that the installer has handed over. -/
  handed : List H

def Install.empty : Install H := ⟨[], [], []⟩

def insertNew (l : List H) (handle : H) : List H := if handle ∈ l then l else l ++ [handle]

def recordHandle (handle : H) : Op (Install H) Unit :=
  modify fun i => { i with handles := insertNew i.handles handle }

def unregister (handle : H) : Op (Install H) Unit :=
  modify fun i => { i with unregistered := i.unregistered ++ [handle] }

def hand (handles : List H) : Op (Install H) Unit :=
  modify fun i => { i with handed := handles.foldl insertNew i.handed }

def notSequential (context : String) : String :=
  context ++ " must return a non-empty sequential table of registration handles"

def entryError (context : String) : List (Key × Item H) → Option String
  | [] => none
  | (_, .handle _) :: rest => entryError context rest
  | (_, .plain) :: _ => some (context ++ " returned handle without unregister")
  | (_, .scalar) :: _ => some (context ++ " returned non-table handle")

def Key.valid : Key → Bool
  | .number n => decide (0 < n)
  | .other _ => false

def maxIndex (entries : List (Key × Item H)) : Int :=
  entries.foldl (fun highest entry => match entry.1 with
    | .number n => if 0 < n then max highest n else highest
    | .other _ => highest) 0

def appendHandles (returned : Returned H) (context : String) : Op (Install H) Unit :=
  match returned with
  | .scalar => raise (notSequential context)
  | .table (some bare) _ => do
    unregister bare
    raise (notSequential context ++ ", not a bare handle")
  | .table none entries => do
    forEach (entryHandles entries) recordHandle
    match entryError context entries with
    | some message => raise message
    | none => do
      require (0 < entries.length) (notSequential context)
      require ((entries.all fun entry => entry.1.valid) = true) (notSequential context)
      require ((entries.length : Int) = maxIndex entries) (notSequential context)
      require (((List.range entries.length).all fun i =>
        (entries.lookup (.number (i + 1))).isSome) = true) (notSequential context)

def recordHandleCall (maybeCtx maybeHandle : Option (Item H)) : Op (Install H) Unit :=
  appendHandles (.table none ((selected maybeCtx maybeHandle).toList.map fun item => (.number 1, item)))
    "record-handle"

/-- The installer may catch what `record-handle` raises; that it did not is a part of its outcome. -/
def record (call : Option (Item H) × Option (Item H)) : Op (Install H) Unit := do
  hand ((selected call.1 call.2).toList.flatMap Item.handles)
  let _ ← caught (recordHandleCall call.1 call.2)
  pure ()

def Attempt.run (attempt : Attempt H) : Op (Install H) (Returned H) := do
  forEach attempt.recorded record
  let returned ← ofExcept attempt.outcome
  hand returned.handles
  pure returned

def appendFrom (attempt : Attempt H) (context : String) : Op (Install H) Unit := do
  let returned ← attempt.run
  appendHandles returned context

def Install.unregisterHandles (i : Install H) : Install H :=
  { i with unregistered := i.unregistered ++ i.handles.reverse }

/-! ## The registry -/

structure Descriptor where
  id : String
  unitId : String
  schemes : List String
  refreshSchemes : Option (List String)
  installMorphs : Bool
deriving DecidableEq, Repr

/-- A runtime with what the registry asks it for. -/
structure Runtime where
  name : Nat
  isTable : Bool
  hasGraph : Bool
  hasKeyLoaders : Bool
  hasMorphs : Bool
deriving DecidableEq, Repr

structure Stored where
  id : String
  unitId : String
  schemes : List String
  refreshSchemes : Option (List String)
  descriptor : Descriptor
  registrationId : Nat
deriving DecidableEq, Repr

/-- The handles of an extension in a runtime. -/
structure Placed (H : Type) where
  runtime : Runtime
  extension : String
  handles : List H
deriving DecidableEq, Repr

def Placed.elsewhere (placed other : Placed H) : Bool :=
  decide (¬ (other.runtime = placed.runtime ∧ other.extension = placed.extension))

structure Registry (H : Type) where
  extensions : List Stored
  runtimes : List Runtime
  /-- The keys of `runtime-states`, whose `handles` are in `installed`. -/
  runtimeStates : List Runtime
  installed : List (Placed H)
  extensionRegistrationSeq : Nat
  /-- How many installations were begun. -/
  installs : Nat
  /-- Every call of an `unregister` function. -/
  unregistered : List H
  /-- What each installation handed over. -/
  log : List (Placed H)
deriving Repr

def Registry.empty : Registry H := ⟨[], [], [], [], 0, 0, [], []⟩

namespace Registry

def extension? (d : Registry H) (id : String) : Option Stored :=
  d.extensions.find? fun stored => decide (stored.id = id)

def handles? (d : Registry H) (runtime : Runtime) (id : String) : Option (Placed H) :=
  d.installed.find? fun placed => decide (placed.runtime = runtime ∧ placed.extension = id)

def sortedExtensionIds (d : Registry H) : List String :=
  (d.extensions.map Stored.id).insertionSort fun first second => first ≤ second

def logged (d : Registry H) (runtime : Runtime) (id : String) (i : Install H) : Registry H :=
  { d with
    installs := d.installs + 1
    unregistered := d.unregistered ++ i.unregistered
    log := d.log ++ [⟨runtime, id, i.handed⟩] }

def place (d : Registry H) (runtime : Runtime) (id : String) (handles : List H) : Registry H :=
  { d with installed := d.installed ++ [⟨runtime, id, handles⟩] }

def unplace (d : Registry H) (placed : Placed H) : Registry H :=
  { d with
    unregistered := d.unregistered ++ placed.handles.reverse
    installed := d.installed.filter placed.elsewhere }

def addRuntime (d : Registry H) (runtime : Runtime) : Registry H :=
  { d with
    runtimeStates := d.runtimeStates ++ [runtime]
    runtimes := d.runtimes ++ [runtime] }

def removeRuntime (d : Registry H) (runtime : Runtime) : Registry H :=
  { d with
    runtimes := d.runtimes.erase runtime
    runtimeStates := d.runtimeStates.filter fun other => decide (other ≠ runtime)
    installed := d.installed.filter fun placed => decide (placed.runtime ≠ runtime) }

def store (d : Registry H) (descriptor : Descriptor) : Registry H :=
  { d with
    extensionRegistrationSeq := d.extensionRegistrationSeq + 1
    extensions := d.extensions ++ [⟨descriptor.id, descriptor.unitId, descriptor.schemes,
      descriptor.refreshSchemes, descriptor, d.extensionRegistrationSeq + 1⟩] }

def forget (d : Registry H) (id : String) : Registry H :=
  { d with extensions := d.extensions.filter fun stored => decide (stored.id ≠ id) }

end Registry

/-- The checks of a descriptor whose fields have the right types. -/
def validateDescriptor (descriptor : Descriptor) : Op (Registry H) Unit := do
  require (descriptor.id ≠ "") "graph extension descriptor requires non-empty id"
  require (descriptor.unitId ≠ "") "graph extension descriptor requires non-empty unit-id"
  require (descriptor.schemes ≠ [] ∧ "" ∉ descriptor.schemes)
    "graph extension descriptor requires non-empty sequential schemes"
  match descriptor.refreshSchemes with
  | none => pure ()
  | some schemes =>
    require (schemes ≠ [] ∧ "" ∉ schemes)
      "graph extension descriptor refresh-schemes must be non-empty sequential strings"

variable (installer : Nat → Installer H)

def installBody (descriptor : Descriptor) (runtime : Runtime) (attempts : Installer H) :
    Op (Install H) Unit := do
  appendFrom attempts.loaders "install-loaders"
  if descriptor.installMorphs = true then do
    require (runtime.hasMorphs = true)
      "graph extension runtime graph requires morphs for install-morphs"
    appendFrom attempts.morphs "install-morphs"
  else pure ()

def installExtensionIntoRuntime (descriptor : Descriptor) (runtime : Runtime) :
    Op (Registry H) (List H) := do
  require (runtime.isTable = true) "graph extension runtime must be a table"
  require (runtime.hasGraph = true) "graph extension runtime requires :graph"
  require (runtime.hasKeyLoaders = true)
    "graph extension runtime graph requires register-key-loader"
  let d ← get
  match installBody descriptor runtime (installer d.installs) Install.empty with
  | (.ok (), i) => do
    modify fun d => d.logged runtime descriptor.id i
    pure i.handles
  | (.error message, i) => do
    modify fun d => d.logged runtime descriptor.id i.unregisterHandles
    raise message

def installExtensionIntoState (descriptor : Descriptor) (runtime : Runtime) :
    Op (Registry H) Unit := do
  let d ← get
  require ((d.handles? runtime descriptor.id).isNone = true)
    ("graph extension already installed in runtime: " ++ descriptor.id)
  let handles ← installExtensionIntoRuntime installer descriptor runtime
  modify fun d => d.place runtime descriptor.id handles

def uninstallExtensionFromState (runtime : Runtime) (id : String) : Op (Registry H) Unit := do
  let d ← get
  match d.handles? runtime id with
  | none => pure ()
  | some placed => modify fun d => d.unplace placed

def installDescriptorInto (descriptor : Descriptor) (runtime : Runtime) : Op (Registry H) Unit := do
  let d ← get
  require (runtime ∈ d.runtimeStates) "graph extension registry missing runtime state"
  installExtensionIntoState installer descriptor runtime

def registerExtension (descriptor : Descriptor) : Op (Registry H) Unit := do
  validateDescriptor descriptor
  let d ← get
  require ((d.extension? descriptor.id).isNone = true)
    ("duplicate graph extension: " ++ descriptor.id)
  let (failure, installedStates) ← doEach (installDescriptorInto installer descriptor) d.runtimes
  match failure with
  | none => modify fun d => d.store descriptor
  | some message => do
    forEach installedStates.reverse fun runtime =>
      uninstallExtensionFromState runtime descriptor.id
    raise message

/-- What `unregister-extension` is called with: an id, or a table with the fields of a handle,
which may be the handle that was given for the registration. -/
inductive HandleOrId where
  | id (id : String)
  | table (id : String) (registrationId : Nat) (given : Bool) (active : Bool)
deriving DecidableEq, Repr

def HandleOrId.extensionId : HandleOrId → String
  | .id extension => extension
  | .table extension _ _ _ => extension

def HandleOrId.belongsTo (stored : Stored) : HandleOrId → Bool
  | .id _ => true
  | .table _ registrationId given _ => decide (registrationId = stored.registrationId) && given

def HandleOrId.inactive : HandleOrId → Bool
  | .id _ => false
  | .table _ _ _ active => !active

def unregisterExtension (handleOrId : HandleOrId) : Op (Registry H) Bool := do
  require (handleOrId.extensionId ≠ "") "unregister-extension requires extension id"
  let d ← get
  match d.extension? handleOrId.extensionId with
  | none => pure handleOrId.inactive
  | some stored => do
    require (handleOrId.belongsTo stored = true)
      ("graph extension " ++ handleOrId.extensionId ++ " belongs to another registration")
    forEach (d.runtimes.filter fun runtime => decide (runtime ∈ d.runtimeStates)) fun runtime =>
      uninstallExtensionFromState runtime handleOrId.extensionId
    modify fun d => d.forget handleOrId.extensionId
    pure true

def installExisting (runtime : Runtime) (id : String) : Op (Registry H) Unit := do
  let d ← get
  match d.extension? id with
  | none => raise "attempt to index a nil value (local 'extension')"
  | some stored => installExtensionIntoState installer stored.descriptor runtime

def installRuntime (runtime : Runtime) : Op (Registry H) Unit := do
  let d ← get
  require (runtime ∉ d.runtimeStates) "graph extension runtime already installed"
  modify fun d => d.addRuntime runtime
  let (failure, installedIds) ← doEach (installExisting installer runtime) d.sortedExtensionIds
  match failure with
  | none => pure ()
  | some message => do
    forEach installedIds.reverse fun id => uninstallExtensionFromState runtime id
    modify fun d => d.removeRuntime runtime
    raise message

def uninstallRuntime (runtime : Runtime) : Op (Registry H) Bool := do
  let d ← get
  if runtime ∈ d.runtimeStates then do
    forEach ((d.installed.filter fun placed => decide (placed.runtime = runtime)).map
      Placed.extension) fun id => uninstallExtensionFromState runtime id
    modify fun d => d.removeRuntime runtime
    pure true
  else pure false

inductive Action where
  | registerExtension (descriptor : Descriptor)
  | unregisterExtension (handleOrId : HandleOrId)
  | installRuntime (runtime : Runtime)
  | uninstallRuntime (runtime : Runtime)
deriving DecidableEq, Repr

/-- The registry after a call, whether it answered or raised. -/
def step (d : Registry H) : Action → Registry H
  | .registerExtension descriptor => (registerExtension installer descriptor d).2
  | .unregisterExtension handleOrId => (unregisterExtension handleOrId d).2
  | .installRuntime runtime => (installRuntime installer runtime d).2
  | .uninstallRuntime runtime => (uninstallRuntime runtime d).2

end Space2.GraphExtensions
