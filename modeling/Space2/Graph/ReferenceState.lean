import Space2.Base.KeepFirst
import Space2.ReferenceLifecycle.Intent

/-!
# References in graph states

A graph state names nodes by concrete keys, never by identities. Rewriting replaces or drops the
keys at the documented places of maps, views and metadata and leaves everything else, the type
`M`, as it is. A migration changes no concrete key, so it only drops repeated keys and islands
without members, and does so once.
-/

namespace Space2.Graph
open Base ReferenceLifecycle

variable {M : Type}

/-- The selection of a state and, where it keeps one, the mark that a focus is present. -/
structure Selection where
  selectedNodeKeys : Option (List Key)
  focusedNodeKey : Option Key
  focusedNodeKeyPresent : Option Bool
  deriving DecidableEq, Repr

/-- `inner` is the nested `panel.panel` with its key. -/
structure Panel (M : Type) where
  nodeKey : Option Key
  inner : Option (Option Key)
  fields : M
  deriving DecidableEq, Repr

structure NodeViews (M : Type) where
  openViews : Option (List (Panel M))
  openNodeKeys : Option (List Key)
  fields : M
  deriving DecidableEq, Repr

structure ViewFields (M : Type) where
  selection : Selection
  views : Option (NodeViews M)
  extraPanels : Option (List (Panel M))
  fields : M
  deriving DecidableEq, Repr

/-- A view with the fields of its spatial mode. -/
structure View (M : Type) where
  own : ViewFields M
  spatial : Option (ViewFields M)
  deriving DecidableEq, Repr

structure Island (M : Type) where
  kind : String
  members : List Key
  listKey : Option Key
  fields : M
  deriving DecidableEq, Repr

structure Edge (M : Type) where
  source : Key
  target : Key
  fields : M
  deriving DecidableEq, Repr

structure Topology (M : Type) where
  nodes : Option (List Key)
  edges : Option (List (Edge M))
  outlineRootKeys : Option (List Key)
  islands : Option (List (Island M))
  deriving DecidableEq, Repr

structure Map (M : Type) where
  topology : Topology M
  selection : Selection
  fields : M
  deriving DecidableEq, Repr

structure Metadata (M : Type) where
  positions : Option (List (Key × M))
  sizes : Option (List (Key × M))
  presentations : Option (List (Key × M))
  panels : Option (List (Panel M))
  extraPanels : Option (List (Panel M))
  fields : M
  deriving DecidableEq, Repr

section Rewriting
variable (operation : Operation)

def concreteKey (key : Key) : Option Key :=
  if operation.kind = .delete ∧ key ∈ operation.retiring then none
  else if operation.kind = .morph ∧ some key = operation.sourceKey then operation.targetKey
  else some key

def rewriteKeys (keys : List Key) : List Key :=
  keepFirst (fun _ => true) (keys.filterMap (concreteKey operation))

/-- `rewrite-selection!` -/
def rewriteSelection (state : Selection) : Selection where
  selectedNodeKeys := state.selectedNodeKeys.map (rewriteKeys operation)
  focusedNodeKey := state.focusedNodeKey.bind (concreteKey operation)
  focusedNodeKeyPresent :=
    match state.focusedNodeKey with
    | none => state.focusedNodeKeyPresent
    | some key => state.focusedNodeKeyPresent.map fun _ => (concreteKey operation key).isSome

def rewritePanel (panel : Panel M) : Option (Panel M) :=
  let key := panel.nodeKey.bind (concreteKey operation)
  if panel.nodeKey = none ∨ key ≠ none then
    some { panel with
      nodeKey := key
      inner := panel.inner.map fun inner => inner.bind (concreteKey operation) }
  else none

def rewritePanels (panels : List (Panel M)) : List (Panel M) :=
  panels.filterMap (rewritePanel operation)

/-- `rewrite-node-views!` -/
def rewriteNodeViews (views : NodeViews M) : NodeViews M :=
  { views with
    openViews := views.openViews.map (rewritePanels operation)
    openNodeKeys := views.openNodeKeys.map (rewriteKeys operation) }

/-- `rewrite-view-fields!` -/
def rewriteViewFields (state : ViewFields M) : ViewFields M :=
  { state with
    selection := rewriteSelection operation state.selection
    views := state.views.map (rewriteNodeViews operation)
    extraPanels := state.extraPanels.map (rewritePanels operation) }

def rewriteView (state : View M) : View M where
  own := rewriteViewFields operation state.own
  spatial := state.spatial.map (rewriteViewFields operation)

def rewriteIsland (island : Island M) : Option (Island M) :=
  let members := rewriteKeys operation island.members
  if members = [] then none
  else some { island with
    members := members
    listKey := if island.kind = "ordered-list" then island.listKey.bind (concreteKey operation)
      else island.listKey }

def rewriteIslands (islands : List (Island M)) : List (Island M) :=
  islands.filterMap (rewriteIsland operation)

def rewriteEdge (edge : Edge M) : Option (Edge M) :=
  match concreteKey operation edge.source, concreteKey operation edge.target with
  | some source, some target => some { edge with source := source, target := target }
  | _, _ => none

def rewriteEdges (edges : List (Edge M)) : List (Edge M) :=
  edges.filterMap (rewriteEdge operation)

def rewriteTopology (state : Topology M) : Topology M where
  nodes := state.nodes.map (rewriteKeys operation)
  edges := state.edges.map (rewriteEdges operation)
  outlineRootKeys := state.outlineRootKeys.map (rewriteKeys operation)
  islands := state.islands.map (rewriteIslands operation)

def rewriteMap (state : Map M) : Map M :=
  { state with
    topology := rewriteTopology operation state.topology
    selection := rewriteSelection operation state.selection }

/-- Unaffected metadata wins over metadata that moves to the same key. -/
def rewriteKeyed (items : List (Key × M)) : List (Key × M) :=
  items.foldl (fun out item =>
      match concreteKey operation item.1 with
      | none => out
      | some key => if out.any (·.1 = key) then out else out ++ [(key, item.2)])
    (items.filter fun item => concreteKey operation item.1 = some item.1)

def rewriteMetadata (metadata : Metadata M) : Metadata M :=
  { metadata with
    positions := metadata.positions.map (rewriteKeyed operation)
    sizes := metadata.sizes.map (rewriteKeyed operation)
    presentations := metadata.presentations.map (rewriteKeyed operation)
    panels := metadata.panels.map (rewritePanels operation)
    extraPanels := metadata.extraPanels.map (rewritePanels operation) }

end Rewriting

section Migration
variable {first second : Operation}

theorem concreteKey_migrate (h : first.kind = .migrate) : concreteKey first = some := by
  funext key
  simp [concreteKey, h]

theorem rewriteKeys_migrate (h : first.kind = .migrate) :
    rewriteKeys first = keepFirst fun _ => true := by
  funext keys
  simp [rewriteKeys, concreteKey_migrate h]

theorem rewritePanels_migrate (h : first.kind = .migrate) :
    rewritePanels (M := M) first = id := by
  have hsame : rewritePanel (M := M) first = some := by
    funext panel
    obtain ⟨nodeKey, inner, fields⟩ := panel
    cases nodeKey <;> simp [rewritePanel, concreteKey_migrate h]
  funext panels
  simp [rewritePanels, hsame]

theorem rewriteEdges_migrate (h : first.kind = .migrate) :
    rewriteEdges (M := M) first = id := by
  have hsame : rewriteEdge (M := M) first = some := by
    funext edge
    simp [rewriteEdge, concreteKey_migrate h]
  funext edges
  simp [rewriteEdges, hsame]

theorem rewriteKeyed_migrate (h : first.kind = .migrate) :
    rewriteKeyed (M := M) first = id := by
  funext items
  suffices hfold : ∀ rest : List (Key × M), (∀ item ∈ rest, item ∈ items) → rest.foldl (fun out item =>
      match concreteKey first item.1 with
      | none => out
      | some key => if out.any (·.1 = key) then out else out ++ [(key, item.2)]) items = items by
    simpa [rewriteKeyed, concreteKey_migrate h] using hfold items fun _ hitem => hitem
  rw [concreteKey_migrate h]
  intro rest hrest
  induction rest with
  | nil => rfl
  | cons item rest ih =>
    have hany : items.any (·.1 = item.1) = true := by
      simp only [List.any_eq_true, decide_eq_true_eq]
      exact ⟨item, hrest item List.mem_cons_self, rfl⟩
    rw [List.foldl_cons]
    simp only [hany, if_true]
    exact ih fun other hother => hrest other (List.mem_cons_of_mem item hother)

variable (h : first.kind = .migrate) (h' : second.kind = .migrate)
include h h'

theorem rewriteSelection_again (state : Selection) :
    rewriteSelection second (rewriteSelection first state) = rewriteSelection first state := by
  cases hkey : state.focusedNodeKey <;>
    simp [rewriteSelection, rewriteKeys_migrate h, rewriteKeys_migrate h', concreteKey_migrate h,
      concreteKey_migrate h', hkey, Function.comp_def]

theorem rewriteViewFields_again (state : ViewFields M) :
    rewriteViewFields second (rewriteViewFields first state) = rewriteViewFields first state := by
  have hviews : ∀ views : NodeViews M,
      rewriteNodeViews second (rewriteNodeViews first views) = rewriteNodeViews first views := by
    intro views
    simp [rewriteNodeViews, rewriteKeys_migrate h, rewriteKeys_migrate h', rewritePanels_migrate h,
      rewritePanels_migrate h', Function.comp_def]
  simp [rewriteViewFields, rewriteSelection_again h h', rewritePanels_migrate h,
    rewritePanels_migrate h', Function.comp_def, hviews]

theorem rewriteView_again (state : View M) :
    rewriteView second (rewriteView first state) = rewriteView first state := by
  simp [rewriteView, rewriteViewFields_again h h', Function.comp_def]

theorem rewriteIsland_again {island kept : Island M} (hkept : rewriteIsland first island = some kept) :
    rewriteIsland second kept = some kept := by
  simp only [rewriteIsland, rewriteKeys_migrate h, concreteKey_migrate h] at hkept
  split at hkept
  next => cases hkept
  next hempty =>
    obtain rfl := Option.some.inj hkept
    simp [rewriteIsland, rewriteKeys_migrate h', concreteKey_migrate h', hempty]

theorem rewriteIslands_again (islands : List (Island M)) :
    rewriteIslands second (rewriteIslands first islands) = rewriteIslands first islands := by
  have hall : ∀ kept ∈ rewriteIslands first islands, rewriteIsland second kept = some kept := by
    intro kept hkept
    obtain ⟨island, -, hisland⟩ := List.mem_filterMap.mp hkept
    exact rewriteIsland_again h h' hisland
  generalize rewriteIslands first islands = kept at hall
  rw [rewriteIslands, List.filterMap_congr hall, List.filterMap_some]

theorem rewriteTopology_again (state : Topology M) :
    rewriteTopology second (rewriteTopology first state) = rewriteTopology first state := by
  simp [rewriteTopology, rewriteIslands_again h h', rewriteEdges_migrate h,
    rewriteEdges_migrate h', rewriteKeys_migrate h, rewriteKeys_migrate h', Function.comp_def]

theorem rewriteMap_again (state : Map M) :
    rewriteMap second (rewriteMap first state) = rewriteMap first state := by
  simp [rewriteMap, rewriteTopology_again h h', rewriteSelection_again h h']

theorem rewriteMetadata_again (metadata : Metadata M) :
    rewriteMetadata second (rewriteMetadata first metadata) = rewriteMetadata first metadata := by
  simp [rewriteMetadata, rewriteKeyed_migrate h, rewriteKeyed_migrate h', rewritePanels_migrate h,
    rewritePanels_migrate h']

end Migration

end Space2.Graph
