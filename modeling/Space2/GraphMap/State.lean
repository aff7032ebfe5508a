import Mathlib
import Space2.Base.Raising
import Space2.ReferenceLifecycle.Keys

/-!
# The state of a graph map

Nodes and edges are objects: a node is known by its reference and its key, and an edge
may be changed while the map and its callers hold it, so that edges live in a heap. The
map keeps the list of its edges, the table from edge keys to edges and the set of keys
of edges that come from a link or a workflow.
-/
namespace Space2.GraphMap
open ReferenceLifecycle (Key)

structure Node where
  ref : Nat
  key : Key
deriving DecidableEq

structure EdgeOptions where
  fromLinkEntity : Option String := none
  fromWorkflowEdge : Option String := none
deriving DecidableEq

/-- `color` is a native vector. -/
structure Edge (C : Type) where
  source : Node
  target : Node
  label : String
  color : Option C
  opts : Option EdgeOptions
deriving DecidableEq

/-- A serialized edge, with the fields that the map does not read. -/
structure Row (J : Type) where
  source : Key
  target : Key
  label : Option String
  color : Option J
  extra : J
deriving DecidableEq

/-- A normalized record. -/
structure Island (J : Type) where
  id : String
  kind : String
  members : List Key
  state : J
  named : id ≠ ""
  kinded : kind ≠ ""
  populated : members ≠ []
  distinct : members.Nodup
  memberNamed : "" ∉ members
deriving DecidableEq

inductive ViewMode
  | spatial
  | outline
deriving DecidableEq

/-- `nodes` is in the order in which `pairs` visits the table, `islands` in any. -/
structure State (C J : Type) where
  nodes : List Node
  heap : Nat → Edge C
  nextRef : Nat
  edges : List Nat
  edgeMap : String → Option Nat
  derivedEdgeKeys : String → Bool
  explicitEdgeRows : String → Option (Row J)
  islands : List (Island J)
  nextIslandId : Nat
  unresolvedRestoredNodeKeys : List Key
  unresolvedRestoredEdgeList : List (Row J)
  selectedNodeKeys : List Key
  focusedNodeKey : Option Key
  viewMode : ViewMode
  outlineRootKeys : List Key

variable {C J : Type}

/-! ## Keys -/

def edgeAddress (source target : Key) : String := source ++ "->" ++ target

def EdgeOptions.id (options : Option EdgeOptions) : Option String :=
  (options.bind EdgeOptions.fromLinkEntity).or (options.bind EdgeOptions.fromWorkflowEdge)

def derivedEdgeId (edge : Edge C) (options : Option EdgeOptions) : Option String :=
  (EdgeOptions.id options).or (EdgeOptions.id edge.opts)

def derivedKey (base : String) : Option String → String
  | some id => base ++ "#link:" ++ id
  | none => base

def edgeKey (edge : Edge C) (options : Option EdgeOptions) : String :=
  derivedKey (edgeAddress edge.source.key edge.target.key) (derivedEdgeId edge options)

/-- `from-link-entity` of an edge -/
def Edge.linkId (edge : Edge C) : Option String := edge.opts.bind EdgeOptions.fromLinkEntity

/-- The island with the members that are kept, or nothing when there are none. -/
def Island.keeping (island : Island J) (kept : Key → Bool) : Option (Island J) :=
  if h : island.members.filter kept = [] then none
  else some { island with
    members := island.members.filter kept
    populated := h
    distinct := island.distinct.filter kept
    memberNamed := fun hmem => island.memberNamed (List.mem_of_mem_filter hmem) }

namespace State

def lookup (s : State C J) (key : Key) : Option Node := s.nodes.find? fun node => node.key = key

def loaded (s : State C J) (key : Key) : Bool := (s.lookup key).isSome

/-- The key under which an edge of the map is found again. -/
def keyOf (s : State C J) (ref : Nat) : String := edgeKey (s.heap ref) none

def setEdge (s : State C J) (ref : Nat) (edge : Edge C) : State C J :=
  { s with heap := fun other => if other = ref then edge else s.heap other }

/-- `set` with nil removes the entry. -/
def setEdgeMap (s : State C J) (key : String) (ref : Option Nat) : State C J :=
  { s with edgeMap := fun other => if other = key then ref else s.edgeMap other }

def setDerived (s : State C J) (key : String) (derived : Bool) : State C J :=
  { s with derivedEdgeKeys := fun other =>
      if other = key then derived else s.derivedEdgeKeys other }

def setExplicitRow (s : State C J) (key : String) (row : Option (Row J)) : State C J :=
  { s with explicitEdgeRows := fun other =>
      if other = key then row else s.explicitEdgeRows other }

def forget (s : State C J) (key : String) : State C J :=
  (s.setEdgeMap key none).setDerived key false

/-! ## Selection and outline -/

def copyVisibleSelectedNodeKeys (s : State C J) (keys : List Key) : List Key :=
  keys.filter s.loaded

def setSelectedNodeKeys (keys : List Key) (s : State C J) : State C J :=
  { s with selectedNodeKeys := s.copyVisibleSelectedNodeKeys keys }

def normalizeOutlineRootKeys (s : State C J) (keys : List Key) : List Key :=
  keys.foldl (fun result key =>
    if s.loaded key = true ∧ key ∉ result then result ++ [key] else result) []

/-- `set-outline-root-keys!` -/
def setOutlineRootKeys (keys : List Key) (s : State C J) : State C J :=
  { s with outlineRootKeys := s.normalizeOutlineRootKeys keys }

/-- `set-view-mode!` -/
def setViewMode (mode : ViewMode) (s : State C J) : State C J := { s with viewMode := mode }

/-! ## Islands -/

def getIsland (s : State C J) (id : String) : Option (Island J) :=
  s.islands.find? fun island => island.id = id

def removeIsland (id : String) (s : State C J) : State C J :=
  { s with islands := s.islands.filter fun island => island.id ≠ id }

def putIsland (island : Island J) (s : State C J) : State C J :=
  { s with islands := s.islands.filter (fun other => other.id ≠ island.id) ++ [island] }

def listIslands (s : State C J) : List (Island J) :=
  s.islands.mergeSort fun first second => first.id ≤ second.id

def pruneIslandsForNodeKeys (s : State C J) : State C J :=
  { s with islands := s.islands.filterMap fun island => island.keeping s.loaded }

/-- The number at the end of `island-…`. -/
def islandNumber (id : String) : Option Nat :=
  match "island-".toList.isPrefixOf? id.toList with
  | some suffix =>
    if suffix ≠ [] ∧ suffix.all Char.isDigit = true then
      some (suffix.foldl (fun number digit => 10 * number + (digit.toNat - '0'.toNat)) 0)
    else none
  | none => none

def nextIslandNumberAfterRecords (s : State C J) : Nat :=
  s.islands.foldl (fun next island =>
    match islandNumber island.id with
    | some number => if next ≤ number then number + 1 else next
    | none => next) 1

end State

end Space2.GraphMap

/-!
# Operations on nodes and edges

An environment answers what the shared graph, its loaders and the link and identity
stores answer during one call; hooks of nodes and listeners of signals are left out.
Adding a node links it, linking adds edges and adding an edge adds its nodes: the bodies
take the next function as an argument, and since linking only joins nodes that are
already stored, the recursion is tied on such nodes.
-/
namespace Space2.GraphMap
open Base
open ReferenceLifecycle (Key)

variable {C J : Type}

/-- A link entity as its store lists it; `name` is `metadata.name`. -/
structure Link where
  id : String
  sourceKey : Key
  targetKey : Key
  createdAt : Nat
  name : Option String
deriving DecidableEq

def Link.label (link : Link) : String := link.name.getD ""

/-- What a call finds outside of the map. A loader answers with a new object of the asked
key, and only when its scheme is registered. -/
structure Env (C J : Type) where
  hasKeyLoaderForKey : Key → Bool
  createNodeByKey : (key : Key) → Except String (Option {node : Node // node.key = key})
  loaders : ∀ key, hasKeyLoaderForKey key = false → createNodeByKey key = .ok none
  mountedElsewhere : Node → Bool
  authorDomainEdge : Node → Node → Option EdgeOptions → Except String (Option EdgeOptions)
  removeDomainEdge : Edge C → Except String Unit
  resolveKey : Key → Except String Key
  findEntitiesForKey : Key → Except String (List Link)
  listEntities : Except String (List Link)
  vec4 : J → C
  components : C → J
  linkColor : C

abbrev MapOp (C J α : Type) := Op (State C J) α

/-! ## Edge objects -/

def State.allocate (edge : Edge C) (s : State C J) : State C J :=
  { s.setEdge s.nextRef edge with nextRef := s.nextRef + 1 }

/-- `GraphEdge` -/
def graphEdge (source target : Node) (label : Option String) (color : Option C) : MapOp C J Nat :=
  fun s => (.ok s.nextRef, s.allocate ⟨source, target, label.getD "", color, none⟩)

/-! ## Nodes -/

def Edge.retarget (existing node : Node) (edge : Edge C) : Edge C :=
  { edge with
    source := if edge.source = existing then node else edge.source
    target := if edge.target = existing then node else edge.target }

def State.replaceNode (existing node : Node) (s : State C J) : State C J :=
  { s with
    nodes := s.nodes.map fun other => if other.key = node.key then node else other
    heap := fun ref => if ref ∈ s.edges then (s.heap ref).retarget existing node else s.heap ref }

def canonicalNode (env : Env C J) (node : Node) (context : String) : MapOp C J Unit :=
  Op.require (env.hasKeyLoaderForKey node.key = true)
    ("GraphMap " ++ context ++ " node key is not loader-backed: " ++ node.key)

def addNodeWith (recomputeLinkEdgesForNode : Key → MapOp C J Unit) (env : Env C J) (node : Node) :
    MapOp C J Node := do
  let s ← Op.get
  Op.require (node ∈ s.nodes ∨ env.mountedElsewhere node = false)
    ("GraphMap.add-node: node " ++ node.key ++ " is already mounted to another graph/map")
  canonicalNode env node "add-node"
  match s.lookup node.key with
  | some existing =>
    if existing = node then pure existing
    else do
      Op.modify (State.replaceNode existing node)
      pure node
  | none =>
    Op.modify fun s => { s with nodes := s.nodes ++ [node] }
    recomputeLinkEdgesForNode node.key
    pure node

/-! ## Edges -/

def State.replaceEdge (existing ref : Nat) (options : Option EdgeOptions) (s : State C J) :
    State C J :=
  let key := edgeKey (s.heap ref) options
  { (((s.setEdgeMap key (some ref)).setDerived key (derivedEdgeId (s.heap ref) options).isSome)
      |>.setEdge ref { s.heap ref with opts := options }) with
    edges := s.edges.map fun other => if other = existing then ref else other }

def State.insertEdge (ref : Nat) (options : Option EdgeOptions) (s : State C J) : State C J :=
  let key := edgeKey (s.heap ref) options
  let derived := (derivedEdgeId (s.heap ref) options).isSome
  { ((s.setEdgeMap key (some ref)).setDerived key (derived || s.derivedEdgeKeys key)
      |>.setEdge ref (if options.isSome then { s.heap ref with opts := options } else s.heap ref))
    with edges := s.edges ++ [ref] }

/-- The last part of `add-edge`, once the endpoints are stored and the options are known. -/
def State.placeEdge (ref : Nat) (options : Option EdgeOptions) (s : State C J) : State C J :=
  let key := edgeKey (s.heap ref) options
  match s.edgeMap key with
  | some existing =>
    if s.derivedEdgeKeys key = false ∧ (derivedEdgeId (s.heap ref) options).isSome = true then s
    else s.replaceEdge existing ref options
  | none => s.insertEdge ref options

/-- A node may author the edge in its own store, which gives the edge its origin. -/
def authoredOptions (env : Env C J) (edge : Edge C) (edgeOpts : Option EdgeOptions) :
    MapOp C J (Option EdgeOptions) :=
  if derivedEdgeId edge edgeOpts = none then do
    let authored ← Op.ofExcept (env.authorDomainEdge edge.source edge.target edgeOpts)
    pure (authored.or edgeOpts)
  else pure edgeOpts

def addEdgeWith (addNode : Node → MapOp C J Node) (env : Env C J) (ref : Nat)
    (edgeOpts : Option EdgeOptions) : MapOp C J Unit := do
  canonicalNode env ((← Op.get).heap ref).source "add-edge source"
  canonicalNode env ((← Op.get).heap ref).target "add-edge target"
  let source ← addNode ((← Op.get).heap ref).source
  let target ← addNode ((← Op.get).heap ref).target
  Op.modify fun s => s.setEdge ref { s.heap ref with source := source, target := target }
  let options ← authoredOptions env ((← Op.get).heap ref) edgeOpts
  Op.modify (State.placeEdge ref options)

/-! ## Links -/

def linkEdgeKey (sourceKey targetKey : Key) (id : String) : String :=
  edgeAddress sourceKey targetKey ++ "#link:" ++ id

def joinLinked (addEdge : Nat → Option EdgeOptions → MapOp C J Unit) (env : Env C J)
    (link : Link) (source target : Node) : MapOp C J Unit := do
  let ref ← graphEdge source target (some link.label) (some env.linkColor)
  addEdge ref (some { fromLinkEntity := some link.id })

def recomputeLink (addEdge : Nat → Option EdgeOptions → MapOp C J Unit) (env : Env C J)
    (link : Link) : MapOp C J Unit := do
  let sourceKey ← Op.ofExcept (env.resolveKey link.sourceKey)
  let targetKey ← Op.ofExcept (env.resolveKey link.targetKey)
  let s ← Op.get
  match s.lookup sourceKey, s.lookup targetKey with
  | some source, some target =>
    if sourceKey ≠ targetKey ∧ s.derivedEdgeKeys (linkEdgeKey sourceKey targetKey link.id) = false
    then joinLinked addEdge env link source target
    else pure ()
  | _, _ => pure ()

def recomputeWith (addEdge : Nat → Option EdgeOptions → MapOp C J Unit) (env : Env C J)
    (nodeKey : Key) : MapOp C J Unit := do
  let entities ← Op.ofExcept (env.findEntitiesForKey nodeKey)
  Op.forEach entities (recomputeLink addEdge env)

/-- Between stored nodes, which are not linked again. -/
def addStoredEdge (env : Env C J) : Nat → Option EdgeOptions → MapOp C J Unit :=
  addEdgeWith (addNodeWith (fun _ => pure ()) env) env

def recomputeLinkEdgesForNode (env : Env C J) : Key → MapOp C J Unit :=
  recomputeWith (addStoredEdge env) env

def addNode (env : Env C J) : Node → MapOp C J Node :=
  addNodeWith (recomputeLinkEdgesForNode env) env

def addEdge (env : Env C J) : Nat → Option EdgeOptions → MapOp C J Unit :=
  addEdgeWith (addNode env) env

end Space2.GraphMap
