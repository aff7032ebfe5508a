import Space2.GraphMap.State

/-!
# Commands and events of a graph map

Removing edges and nodes, restoring and installing a state, and the handlers of the
shared graph's signals and of the link and identity stores.
-/
namespace Space2.GraphMap
open Base
open ReferenceLifecycle (Key)

variable {C J : Type}

/-! ## Removal -/

inductive EdgeOrKey
  | key (key : String)
  | edge (ref : Nat)
deriving DecidableEq

def State.detach (ref : Nat) (s : State C J) : State C J :=
  let key := s.keyOf ref
  (({ s with edges := s.edges.filter (· ≠ ref) } : State C J).forget key).setExplicitRow key none

def removeEdge (env : Env C J) (edgeOrKey : EdgeOrKey) : MapOp C J Unit := do
  let s ← Op.get
  match (match edgeOrKey with | .key key => s.edgeMap key | .edge ref => some ref) with
  | some ref =>
    Op.modify (State.detach ref)
    Op.ofExcept (env.removeDomainEdge (s.heap ref))
  | none => pure ()

/-- Edges that are taken off the list with the entries of their keys. -/
def State.forgetEdges (removed : Nat → Bool) (s : State C J) : State C J :=
  let keys := (s.edges.filter removed).map s.keyOf
  { s with
    edges := s.edges.filter fun ref => !removed ref
    edgeMap := fun key => if key ∈ keys then none else s.edgeMap key
    derivedEdgeKeys := fun key => if key ∈ keys then false else s.derivedEdgeKeys key }

def State.touches (s : State C J) (nodes : List Node) (ref : Nat) : Bool :=
  (s.heap ref).source ∈ nodes || (s.heap ref).target ∈ nodes

/-- The lists of keys that are pruned with the nodes; an empty list stays empty. -/
def State.pruned (removedKeys : List Key) (s : State C J) : State C J :=
  ({ s with
      selectedNodeKeys :=
        s.copyVisibleSelectedNodeKeys (s.selectedNodeKeys.filter (· ∉ removedKeys))
      focusedNodeKey := s.focusedNodeKey.filter (· ∉ removedKeys)
      outlineRootKeys :=
        s.normalizeOutlineRootKeys (s.outlineRootKeys.filter (· ∉ removedKeys)) } :
    State C J).pruneIslandsForNodeKeys

def State.removeNodes (nodesToRemove : List Node) (s : State C J) : State C J :=
  let removed := nodesToRemove.filter fun node => s.lookup node.key = some node
  if removed = [] then s
  else
    let s := s.forgetEdges (s.touches removed)
    let keys := removed.map Node.key
    ({ s with nodes := s.nodes.filter fun node => node.key ∉ keys } : State C J).pruned keys

/-! ## Loading -/

def loadByKey (env : Env C J) (key : Key) : MapOp C J (Option Node) := do
  match (← Op.get).lookup key with
  | some existing => pure (some existing)
  | none =>
    match ← Op.ofExcept (env.createNodeByKey key) with
    | some node => do
      let _ ← addNode env node.1
      pure (some node.1)
    | none => pure none

/-- All replacements are created before the first node is replaced. -/
def refreshAdaptersByScheme (env : Env C J) (keys : List Key) : MapOp C J Unit := do
  let created ← Op.ofExcept (keys.mapM fun key => env.createNodeByKey key >>= fun node =>
    match node with
    | some node => .ok node.1
    | none => .error ("failed to refresh graph nodes for key " ++ key))
  Op.forEach created fun node => Op.modify fun s =>
    match s.lookup node.key with
    | some existing => s.replaceNode existing node
    | none => s

/-! ## Restoring a state -/

structure Payload (J : Type) where
  nodes : List Key
  edges : List (Row J)
  islands : List (Island J)
  nextIslandId : Option Nat
  selectedNodeKeys : List Key
  focusedNodeKey : Option Key
  viewMode : Option ViewMode
  outlineRootKeys : List Key
deriving DecidableEq

def State.recordUnresolvedRestoredNode (key : Key) (s : State C J) : State C J :=
  if key ∈ s.unresolvedRestoredNodeKeys then s
  else { s with unresolvedRestoredNodeKeys := s.unresolvedRestoredNodeKeys ++ [key] }

def State.recordUnresolvedRestoredEdge (row : Row J) (s : State C J) : State C J :=
  { s with unresolvedRestoredEdgeList := s.unresolvedRestoredEdgeList ++ [row] }

def State.emptied (s : State C J) : State C J :=
  { s with
    nodes := []
    edges := []
    edgeMap := fun _ => none
    derivedEdgeKeys := fun _ => false
    explicitEdgeRows := fun _ => none
    islands := []
    nextIslandId := 1
    unresolvedRestoredNodeKeys := []
    unresolvedRestoredEdgeList := [] }

def restoreNode (env : Env C J) (key : Key) : MapOp C J Unit := do
  match ← loadByKey env key with
  | some _ => pure ()
  | none => Op.modify (State.recordUnresolvedRestoredNode key)

def restoreEdge (env : Env C J) (nodeKeys : List Key) (row : Row J) : MapOp C J Unit :=
  if row.source ∈ nodeKeys ∧ row.target ∈ nodeKeys then do
    Op.modify fun s => s.setExplicitRow (edgeAddress row.source row.target) (some row)
    let s ← Op.get
    match s.lookup row.source, s.lookup row.target with
    | some source, some target =>
      let ref ← graphEdge source target row.label (row.color.map env.vec4)
      addEdge env ref none
    | _, _ => Op.modify (State.recordUnresolvedRestoredEdge row)
  else pure ()

def restoreIsland (island : Island J) : MapOp C J Unit := do
  let s ← Op.get
  Op.require (s.getIsland island.id = none)
    ("GraphMap.restore-state duplicate island id: " ++ island.id)
  Op.modify fun s => { s with islands := s.islands ++ [island] }

def State.restoreNextIslandId (given : Option Nat) (s : State C J) : State C J :=
  let computed := s.nextIslandNumberAfterRecords
  let next := match given with
    | some number => if 1 ≤ number then number else computed
    | none => computed
  { s with nextIslandId := if next < computed then computed else next }

def State.restoreView (payload : Payload J) (s : State C J) : State C J :=
  let s := s.setSelectedNodeKeys payload.selectedNodeKeys
  let s := { s with focusedNodeKey := payload.focusedNodeKey.filter s.loaded }
  (s.setViewMode (payload.viewMode.getD .spatial)).setOutlineRootKeys payload.outlineRootKeys

def restoreState (env : Env C J) (payload : Payload J) : MapOp C J Unit := do
  Op.modify State.emptied
  Op.forEach payload.nodes (restoreNode env)
  Op.forEach payload.edges (restoreEdge env payload.nodes)
  let s ← Op.get
  Op.forEach s.nodes fun node => recomputeLinkEdgesForNode env node.key
  Op.forEach payload.islands restoreIsland
  Op.modify (State.restoreNextIslandId payload.nextIslandId)
  Op.modify (State.restoreView payload)

/-! ## Capturing a state -/

/-- A retained color is kept as it was written when it still gives the native color. -/
def captureEdgeColor [DecidableEq C] (env : Env C J) (color : Option C) (retained : Option J) :
    Option J :=
  color.map fun color =>
    match retained with
    | some written => if env.vec4 written = color then written else env.components color
    | none => env.components color

def captureExplicitEdge [DecidableEq C] (env : Env C J) (empty : J) (edge : Edge C)
    (retained : Option (Row J)) : Row J where
  source := edge.source.key
  target := edge.target.key
  label := if (retained.bind Row.label).isSome ∨ edge.label ≠ "" then some edge.label else none
  color := captureEdgeColor env edge.color (retained.bind Row.color)
  extra := (retained.map Row.extra).getD empty

def Row.address (row : Row J) : String := edgeAddress row.source row.target

/-- Later rows of an address that was seen are left out. -/
def keepUnseen (seen : List String) : List (String × Row J) → List (Row J)
  | [] => []
  | (key, row) :: rest =>
    if key ∈ seen then keepUnseen seen rest else row :: keepUnseen (key :: seen) rest

def State.captureState [DecidableEq C] (env : Env C J) (empty : J) (s : State C J) : Payload J where
  nodes := (s.nodes.map Node.key ++ s.unresolvedRestoredNodeKeys.filter fun key =>
    !s.loaded key).mergeSort
  edges := (keepUnseen []
      ((s.edges.filter fun ref => !s.derivedEdgeKeys (s.keyOf ref)).map (fun ref =>
          (s.keyOf ref, captureExplicitEdge env empty (s.heap ref)
            (s.explicitEdgeRows (s.keyOf ref)))) ++
        s.unresolvedRestoredEdgeList.map fun row => (row.address, row))).mergeSort
    fun first second => first.address ≤ second.address
  islands := s.listIslands
  nextIslandId := some s.nextIslandId
  selectedNodeKeys := s.selectedNodeKeys
  focusedNodeKey := s.focusedNodeKey
  viewMode := some s.viewMode
  outlineRootKeys := s.outlineRootKeys

/-! ## Installing a reference state -/

/-- `wanted-edges`: the last row of an address counts. -/
def wantedEdges (nodeKeys : List Key) (rows : List (Row J)) : List (Row J) :=
  (rows.filter fun row => row.source ∈ nodeKeys && row.target ∈ nodeKeys).foldl
    (fun wanted row => wanted.filter (·.address ≠ row.address) ++ [row]) []

def recordUnresolved (unresolved : List Key × List (Row J)) (s : State C J) : State C J :=
  { s with
    unresolvedRestoredNodeKeys := unresolved.1
    unresolvedRestoredEdgeList := unresolved.2 }

def installNodes (env : Env C J) : List Key → MapOp C J (List Key)
  | [] => pure []
  | key :: rest => do
    let node ← loadByKey env key
    let unresolved ← installNodes env rest
    pure (if node.isSome then unresolved else key :: unresolved)

def State.installRow (ref : Nat) (row : Row J) (s : State C J) : State C J :=
  ({ s with edges := s.edges ++ [ref] } : State C J).setEdgeMap row.address (some ref)

def installEdge (env : Env C J) (row : Row J) : MapOp C J (List (Row J)) := do
  Op.modify fun s => s.setExplicitRow row.address (some row)
  let s ← Op.get
  match s.lookup row.source, s.lookup row.target with
  | some source, some target =>
    if s.edgeMap row.address = none then do
      let ref ← graphEdge source target row.label (row.color.map env.vec4)
      Op.modify (State.installRow ref row)
      pure []
    else pure []
  | _, _ => pure [row]

def installEdges (env : Env C J) : List (Row J) → MapOp C J (List (Row J))
  | [] => pure []
  | row :: rest => do
    let unresolved ← installEdge env row
    let others ← installEdges env rest
    pure (unresolved ++ others)

/-- `install-reference-membership!` -/
def installReferenceMembership (env : Env C J) (payload : Payload J) :
    MapOp C J (List Key × List (Row J)) := do
  Op.modify fun s => s.removeNodes (s.nodes.filter fun node => node.key ∉ payload.nodes)
  let unresolvedNodes ← installNodes env payload.nodes
  let wanted := wantedEdges payload.nodes payload.edges
  Op.modify fun s => s.forgetEdges fun ref =>
    !s.derivedEdgeKeys (s.keyOf ref) && s.keyOf ref ∉ wanted.map Row.address
  Op.modify fun s => { s with explicitEdgeRows := fun _ => none }
  let unresolvedEdges ← installEdges env wanted
  pure (unresolvedNodes, unresolvedEdges)

def upsertIsland (island : Island J) : MapOp C J Unit := do
  let s ← Op.get
  match s.getIsland island.id with
  | some existing =>
    Op.require (existing.kind = island.kind) "GraphMap.update-island cannot change island kind"
    Op.modify (State.putIsland island)
  | none => Op.modify (State.putIsland island)

/-- `install-reference-islands!`; an island that is already as wanted is put again. -/
def installReferenceIslands (payload : Payload J) : MapOp C J Unit := do
  Op.forEach payload.islands upsertIsland
  Op.modify fun s => { s with
    islands := s.islands.filter fun island => island.id ∈ payload.islands.map Island.id }

/-- `install-reference-state!` -/
def installReferenceState (env : Env C J) (payload : Payload J) : MapOp C J Unit := do
  let unresolved ← installReferenceMembership env payload
  Op.modify (recordUnresolved unresolved)
  installReferenceIslands payload
  Op.modify fun s => { s with
    nextIslandId := payload.nextIslandId.getD s.nextIslandNumberAfterRecords }
  Op.modify (State.setSelectedNodeKeys payload.selectedNodeKeys)
  Op.modify fun s => { s with focusedNodeKey := payload.focusedNodeKey }
  Op.modify (State.setViewMode (payload.viewMode.getD .spatial))
  Op.modify (State.setOutlineRootKeys payload.outlineRootKeys)

/-! ## Signals of the shared graph -/

def syncSharedNodeRemoved (keys : List Key) (s : State C J) : State C J :=
  s.removeNodes (keys.filterMap s.lookup)

def syncSharedEdgeAdded (env : Env C J) (edge : Edge C) (options : Option EdgeOptions) :
    MapOp C J Unit := do
  let s ← Op.get
  match s.lookup edge.source.key, s.lookup edge.target.key with
  | some source, some target =>
    let ref ← graphEdge source target (some edge.label) edge.color
    addEdge env ref options
  | _, _ => pure ()

/-- A loop from the last edge to the first, whose condition sees the tables as they are left. -/
def State.sweep (condition : State C J → Nat → Bool) (s : State C J) : State C J :=
  let swept := s.edges.foldr (fun ref swept =>
    if condition swept.1 ref = true then (swept.1.forget (swept.1.keyOf ref), swept.2)
    else (swept.1, ref :: swept.2)) (s, [])
  { swept.1 with edges := swept.2 }

def syncSharedEdgeRemoved (edge : Edge C) (options : Option EdgeOptions) (s : State C J) :
    State C J :=
  s.sweep fun s ref =>
    s.derivedEdgeKeys (s.keyOf ref) && decide ((s.heap ref).source.key = edge.source.key) &&
      decide ((s.heap ref).target.key = edge.target.key) &&
      ((derivedEdgeId edge options).isNone ||
        decide (derivedEdgeId (s.heap ref) none = derivedEdgeId edge options))

def syncSharedNodeReplaced (env : Env C J) (key : Key) : MapOp C J Unit := do
  match (← Op.get).lookup key with
  | some existing =>
    match ← Op.ofExcept (env.createNodeByKey key) with
    | some node => Op.modify (State.replaceNode existing node.1)
    | none => pure ()
  | none => pure ()

def syncSharedNodeMorphed (env : Env C J) (source : Key) (target : Option Key) :
    MapOp C J Unit := do
  let s ← Op.get
  if s.loaded source = true then do
    Op.modify (syncSharedNodeRemoved [source])
    match target with
    | some key => do
      let _ ← loadByKey env key
      pure ()
    | none => pure ()
  else pure ()

/-! ## Events of the link and identity stores -/

def State.linkEdges (s : State C J) (id : String) : List Nat :=
  s.edges.filter fun ref => (s.heap ref).linkId = some id

def removeDerivedLinkEdgesById (id : String) (s : State C J) : State C J :=
  s.forgetEdges fun ref => (s.heap ref).linkId = some id

def matchingDerivedLinkEdge (s : State C J) (id : String) (source target : Key)
    (label : String) : Bool :=
  (s.linkEdges id).any (fun ref =>
    decide ((s.heap ref).source.key = source) && decide ((s.heap ref).target.key = target) &&
      decide ((s.heap ref).label = label)) && (s.linkEdges id).length == 1

def upsertLinkEntityEdge (env : Env C J) (link : Link) : MapOp C J Unit := do
  let sourceKey ← Op.ofExcept (env.resolveKey link.sourceKey)
  let targetKey ← Op.ofExcept (env.resolveKey link.targetKey)
  let s ← Op.get
  match s.lookup sourceKey, s.lookup targetKey with
  | some source, some target =>
    if sourceKey = targetKey then Op.modify (removeDerivedLinkEdgesById link.id)
    else if matchingDerivedLinkEdge s link.id sourceKey targetKey link.label = true then pure ()
    else do
      Op.modify (removeDerivedLinkEdgesById link.id)
      joinLinked (addEdge env) env link source target
  | _, _ => Op.modify (removeDerivedLinkEdgesById link.id)

/-- The handler of an identity's update and of its deletion. -/
def refreshLinkEdgesForKey (env : Env C J) (key : Key) : MapOp C J Unit := do
  let entities ← Op.ofExcept (env.findEntitiesForKey key)
  Op.forEach entities (upsertLinkEntityEdge env)

/-- `reconcile-link-projections!` -/
def reconcileLinkProjections (env : Env C J) : MapOp C J Unit := do
  let entities ← Op.ofExcept env.listEntities
  Op.forEach entities (upsertLinkEntityEdge env)
  Op.modify fun s =>
    (s.edges.filterMap fun ref => (s.heap ref).linkId).foldl (fun s id =>
      if id ∈ entities.map Link.id then s else removeDerivedLinkEdgesById id s) s

end Space2.GraphMap
