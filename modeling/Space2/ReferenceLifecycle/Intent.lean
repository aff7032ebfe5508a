import Space2.ReferenceLifecycle.Keys

/-!
# Lifecycle intents

An intent freezes one operation on references: the request, the planned operation, the durable
changes with their before- and after-images, and the captures of transient state. `none` stands
for Lua's `false`: an image of absence, a missing key. An intent is generic in the images `B`, in
the decoded record `V` and in the captured state `T`.
-/

namespace Space2.ReferenceLifecycle

inductive OwnerId
  | entities | identities | workflows | worlds | runtime
  | unknown (id : String)
  deriving DecidableEq, Repr

def OwnerId.name : OwnerId → String
  | .entities => "entities"
  | .identities => "identities"
  | .workflows => "workflows"
  | .worlds => "worlds"
  | .runtime => "runtime"
  | .unknown id => id

/-- The order in which the plan visits the five fixed owners. -/
def ownerIds : List OwnerId := [.entities, .identities, .workflows, .worlds, .runtime]

inductive Format
  | json | string
  | unsupported (text : String)
  deriving DecidableEq, Repr

inductive Phase
  | replacement | incoming | retire
  | invalid (text : String)
  deriving DecidableEq, Repr

inductive Kind
  | migrate | delete | morph
  | unsupported (text : String)
  deriving DecidableEq, Repr

def Kind.name : Kind → String
  | .migrate => "migrate"
  | .delete => "delete"
  | .morph => "morph"
  | .unsupported text => text

inductive SiteKind
  | listItem | notebookItem | dictSlot | linkSource | linkTarget | boardSubject
  | identityTarget | workflowCode
  deriving DecidableEq, Repr

inductive FieldStep
  | name (text : String)
  | index (position : Nat)
  deriving DecidableEq, Repr

/-- One place of a record that holds a key. -/
structure Site where
  address : Key
  field : List FieldStep
  targetKey : Key
  kind : SiteKind
  deriving DecidableEq, Repr

structure OwnedSite extends Site where
  owner : OwnerId
  deriving DecidableEq, Repr

structure Change (B : Type) where
  owner : OwnerId
  address : Key
  path : String
  format : Format
  phase : Phase
  beforeCheck : Option B
  afterCheck : Option B
  afterBytes : Option B
  deriving DecidableEq, Repr

inductive Kernel
  | number (value : Int)
  | text (value : String)
  deriving DecidableEq, Repr

structure Payload where
  name : String
  language : String
  source : String
  kernel : Kernel
  deriving DecidableEq, Repr

structure Replacement extends Payload where
  id : String
  createdAt : Int
  updatedAt : Int
  deriving DecidableEq, Repr

structure Rewrite where
  fromKey : Key
  toKey : Key
  deriving DecidableEq, Repr

/-- An identity reserved by a plan. Its metadata is empty. -/
structure ReservedIdentity where
  id : String
  targetKey : Key
  createdAt : Int
  updatedAt : Int
  deriving DecidableEq, Repr

structure ReferencePlan where
  rewrites : List Rewrite
  identities : List ReservedIdentity
  deriving DecidableEq, Repr

structure Operation where
  kind : Kind
  sourceKey : Option Key
  targetKey : Option Key
  retiring : List Key
  updatedIdentityKeys : List Key
  replacement : Option Replacement
  referencePlan : ReferencePlan
  timestamp : Int
  deriving DecidableEq, Repr

structure Request where
  kind : Kind
  sourceKey : Option Key
  payload : Option Payload
  deriving DecidableEq, Repr

structure Fingerprint (B V : Type) where
  path : String
  format : Format
  beforeCheck : Option B
  record : V

/-- Transient state of one world or of one of its maps, role by role. -/
structure Capture (T : Type) where
  owner : OwnerId
  worldId : String
  mapId : Option String
  before : List (String × T)
  after : List (String × T)

structure Intent (B V T : Type) where
  version : Nat
  operationId : String
  request : Request
  operation : Operation
  sourceFingerprint : Option (Fingerprint B V)
  changes : List (Change B)
  runtimeState : List (Capture T)
  dangling : List OwnedSite

structure MigrationReport where
  version : Nat
  dangling : List OwnedSite
  deriving DecidableEq, Repr

inductive Result (V : Type)
  | migrated (report : MigrationReport)
  | deleted (sourceKey : Option Key) (sourceRecord : V) (retiredKeys : List Key)
  | morphed (codeEntity : Option V) (targetKey : Option Key) (updatedIdentityKeys : List Key)
      (sourceKey : Option Key) (sourceId : String)

variable {B V T : Type}

/-- The context `diagnostic-call` puts before a message: the operation, and where they are known
the owner and the record. -/
def diagnostic (intent : Intent B V T) (owner : Option OwnerId) (change : Option (Change B))
    (message : String) : String :=
  "reference lifecycle operation " ++ intent.operationId ++ " (" ++ intent.operation.kind.name ++
    " " ++ intent.operation.sourceKey.getD "unknown" ++ ")" ++
    (match owner with
      | some owner => " owner " ++ owner.name
      | none => "") ++
    (match change with
      | some change => " at " ++ change.address ++ " (" ++ change.path ++ ")"
      | none => "") ++
    ": " ++ message

end Space2.ReferenceLifecycle
