import Mathlib.Data.List.AList
import Mathlib.Data.List.Sort
import Mathlib.Data.String.Basic
import Space2.Base.KeepFirst

/-!
# Legacy activity keys

Keys of an activity's parts once named only the world. When a manager loads its state
it rewrites them, in the entry of every map and in the metadata of the map it builds.
-/
namespace Space2.GraphMaps

open Space2.Base

abbrev Key := String

/-! ## Keys -/

def splitKeyParts (key : Key) : List String :=
  ((key.toList.splitOnP (· = ':')).filter (· ≠ [])).map String.ofList

def categorySchemes : List String := ["background", "skybox", "lights", "terrains", "scene-panels"]

/-- The canonical key, and whether the key had a legacy form. -/
def canonicalizeLegacyActivityKey (key : Key) : Key × Bool :=
  match splitKeyParts key with
  | [scheme, world] =>
    if scheme ∈ categorySchemes then ("activity-" ++ scheme ++ ":" ++ world ++ ":" ++ "sandbox", true) else (key, false)
  | [scheme, world, third] =>
    if scheme = "light-type" then ("activity-light-type:" ++ world ++ ":" ++ "sandbox" ++ ":" ++ third, true)
    else if scheme = "terrain" then ("activity-terrain:" ++ world ++ ":" ++ "sandbox" ++ ":" ++ third, true)
    else if scheme = "terrain-editor" then
      ("activity-terrain-editor:" ++ world ++ ":" ++ "sandbox" ++ ":" ++ third, true)
    else if scheme = "scene-panel" then ("activity-scene-panel:" ++ world ++ ":" ++ "sandbox" ++ ":" ++ third, true)
    else (key, false)
  | [scheme, world, third, fourth] =>
    if scheme = "light" then
      ("activity-light:" ++ world ++ ":" ++ "sandbox" ++ ":" ++ third ++ ":" ++ fourth, true)
    else if scheme = "terrain-tool" then
      ("activity-terrain-tool:" ++ world ++ ":" ++ "sandbox" ++ ":" ++ third ++ ":" ++ fourth, true)
    else (key, false)
  | _ => (key, false)

def canonicalKey (key : Key) : Key := (canonicalizeLegacyActivityKey key).1

def isLegacy (key : Key) : Bool := (canonicalizeLegacyActivityKey key).2

/-! ## The entry of a map -/

variable {J : Type}

/-- An edge with the fields that are copied with it. -/
structure SavedEdge (J : Type) where
  source : Key
  target : Key
  rest : J
  deriving DecidableEq

structure SavedIsland (J : Type) where
  members : List Key
  rest : J
  deriving DecidableEq

structure MapEntry (J : Type) where
  nodes : List Key
  edges : List (SavedEdge J)
  islands : List (SavedIsland J)
  selectedNodeKeys : List Key
  focusedNodeKey : Option Key
  viewMode : Option String
  outlineRootKeys : List Key
  deriving DecidableEq

def SavedEdge.address (edge : SavedEdge J) : String := edge.source ++ "->" ++ edge.target

def SavedEdge.canonical (edge : SavedEdge J) : SavedEdge J :=
  { edge with source := canonicalKey edge.source, target := canonicalKey edge.target }

/-- An edge whose ends became one node. -/
def SavedEdge.collapses (edge : SavedEdge J) : Bool :=
  canonicalKey edge.source = canonicalKey edge.target && (isLegacy edge.source || isLegacy edge.target)

def migrateEdges : List String → List (SavedEdge J) → List (SavedEdge J)
  | _, [] => []
  | edgeSet, edge :: rest =>
    if edge.collapses = true ∨ edge.canonical.address ∈ edgeSet then migrateEdges edgeSet rest
    else edge.canonical :: migrateEdges (edge.canonical.address :: edgeSet) rest

def migrateMapEntryState (entry : MapEntry J) : MapEntry J :=
  { entry with
    nodes := keepFirst (fun _ => true) (entry.nodes.map canonicalKey)
    edges := migrateEdges [] entry.edges
    selectedNodeKeys := entry.selectedNodeKeys.map canonicalKey
    focusedNodeKey := entry.focusedNodeKey.map canonicalKey
    viewMode := some (entry.viewMode.getD "spatial")
    outlineRootKeys := entry.outlineRootKeys.map canonicalKey }

/-! ## The metadata of a map -/

abbrev Table (J : Type) := AList fun _ : Key => J

structure Panel (J : Type) where
  nodeKey : Option Key
  kind : Option String
  graphMapId : Option String
  rest : J
  deriving DecidableEq

structure Metadata (J : Type) where
  positions : Table J
  presentations : Table J
  sizes : Table J
  panels : List (Panel J)
  extraPanels : List (Panel J)

/-- Moves the value of a legacy key, unless its canonical key has one. -/
def migrateKey (tbl : Table J) (key : Key) : Table J :=
  if isLegacy key = true then
    match tbl.lookup key with
    | some value =>
      (if tbl.lookup (canonicalKey key) = none then tbl.insert (canonicalKey key) value else tbl).erase key
    | none => tbl
  else tbl

/-- `migrate-keyed-metadata-table!` -/
def migrateKeyedMetadataTable (tbl : Table J) : Table J :=
  (tbl.keys.mergeSort fun a b => a ≤ b).foldl migrateKey tbl

/-- `migrate-panel-node-keys!` -/
def migratePanelNodeKeys (panels : List (Panel J)) : List (Panel J) :=
  panels.map fun panel => { panel with nodeKey := panel.nodeKey.map canonicalKey }

def pruneTable (valid : Key → Bool) (tbl : Table J) : Table J :=
  tbl.keys.foldl (fun tbl key => if valid key = true then tbl else tbl.erase key) tbl

def Panel.claimed (mapId : String) (panel : Panel J) : Panel J :=
  { panel with graphMapId := some (panel.graphMapId.getD mapId) }

def Panel.kept (valid : Key → Bool) (mapId : String) (panel : Panel J) : Bool :=
  panel.nodeKey.any valid && (panel.graphMapId.all fun id => id = mapId)

/-- What the file holds after a map with the valid keys was built. -/
def pruneMetadataForState (valid : Key → Bool) (mapId : String) (metadata : Metadata J) : Metadata J where
  positions := pruneTable valid (migrateKeyedMetadataTable metadata.positions)
  presentations := pruneTable valid (migrateKeyedMetadataTable metadata.presentations)
  sizes := pruneTable valid (migrateKeyedMetadataTable metadata.sizes)
  panels := ((migratePanelNodeKeys metadata.panels).map fun panel =>
    if panel.kind = some "graph-node-view" then panel.claimed mapId else panel).filter (Panel.kept valid mapId)
  extraPanels := ((migratePanelNodeKeys metadata.extraPanels).map fun panel =>
    if panel.kind.isSome = true then panel.claimed mapId else panel).filter (Panel.kept valid mapId)

/-! ## What a canonical key is -/

theorem splitKeyParts_append (first rest : String) :
    splitKeyParts (first ++ ":" ++ rest) = splitKeyParts first ++ splitKeyParts rest := by
  have htext : (first ++ ":" ++ rest).toList = first.toList ++ ':' :: rest.toList := by simp
  rw [splitKeyParts, htext, List.splitOnP_append_cons _ _ (by simp), List.filter_append, List.map_append,
    splitKeyParts, splitKeyParts]

def legacySchemes : List String :=
  categorySchemes ++ ["light-type", "light", "terrain", "terrain-editor", "terrain-tool", "scene-panel"]

/-- A key of another scheme is left alone. -/
theorem canonicalize_of_scheme {key scheme : Key} {parts : List String} (hparts : splitKeyParts key = scheme :: parts)
    (hscheme : scheme ∉ legacySchemes) : canonicalizeLegacyActivityKey key = (key, false) := by
  have hother : scheme ∉ categorySchemes ∧ scheme ≠ "light-type" ∧ scheme ≠ "light" ∧ scheme ≠ "terrain" ∧
      scheme ≠ "terrain-editor" ∧ scheme ≠ "terrain-tool" ∧ scheme ≠ "scene-panel" := by
    simpa [legacySchemes, not_or] using hscheme
  obtain ⟨hcategory, htype, hlight, hterrain, heditor, htool, hpanel⟩ := hother
  rw [canonicalizeLegacyActivityKey, hparts]
  rcases parts with - | ⟨second, - | ⟨third, - | ⟨fourth, - | ⟨fifth, more⟩⟩⟩⟩
  · rfl
  · exact if_neg hcategory
  · simp only [if_neg htype, if_neg hterrain, if_neg heditor, if_neg hpanel]
  · simp only [if_neg hlight, if_neg htool]
  · rfl

/-- A legacy key becomes a key of the scheme `activity-…`; another key is left alone. -/
theorem canonicalize_cases (key : Key) : canonicalizeLegacyActivityKey key = (key, false) ∨
    ∃ scheme ∈ legacySchemes, ∃ rest,
      canonicalizeLegacyActivityKey key = ("activity-" ++ scheme ++ ":" ++ rest, true) := by
  have hwritten (scheme rest opening : String) (hopening : opening = "activity-" ++ scheme ++ ":")
      (hscheme : scheme ∈ legacySchemes) : ∃ scheme ∈ legacySchemes, ∃ more,
        (opening ++ rest, true) = ("activity-" ++ scheme ++ ":" ++ more, true) :=
    ⟨scheme, hscheme, rest, by rw [hopening]⟩
  rw [canonicalizeLegacyActivityKey]
  rcases splitKeyParts key with - | ⟨scheme, - | ⟨world, - | ⟨third, - | ⟨fourth, - | ⟨fifth, more⟩⟩⟩⟩⟩
  · exact .inl rfl
  · exact .inl rfl
  · dsimp only
    split_ifs with hcategory
    · have hscheme : scheme ∈ legacySchemes := List.mem_append_left _ hcategory
      have hkey := hwritten scheme (world ++ ":" ++ "sandbox") _ rfl hscheme
      exact .inr (by simpa only [String.append_assoc] using hkey)
    · exact .inl rfl
  · dsimp only
    split_ifs
    · have hkey := hwritten "light-type" (world ++ ":" ++ "sandbox" ++ ":" ++ third) "activity-light-type:"
        (by decide) (by decide)
      exact .inr (by simpa only [String.append_assoc] using hkey)
    · have hkey := hwritten "terrain" (world ++ ":" ++ "sandbox" ++ ":" ++ third) "activity-terrain:"
        (by decide) (by decide)
      exact .inr (by simpa only [String.append_assoc] using hkey)
    · have hkey := hwritten "terrain-editor" (world ++ ":" ++ "sandbox" ++ ":" ++ third) "activity-terrain-editor:"
        (by decide) (by decide)
      exact .inr (by simpa only [String.append_assoc] using hkey)
    · have hkey := hwritten "scene-panel" (world ++ ":" ++ "sandbox" ++ ":" ++ third) "activity-scene-panel:"
        (by decide) (by decide)
      exact .inr (by simpa only [String.append_assoc] using hkey)
    · exact .inl rfl
  · dsimp only
    split_ifs
    · have hkey := hwritten "light" (world ++ ":" ++ "sandbox" ++ ":" ++ third ++ ":" ++ fourth) "activity-light:"
        (by decide) (by decide)
      exact .inr (by simpa only [String.append_assoc] using hkey)
    · have hkey := hwritten "terrain-tool" (world ++ ":" ++ "sandbox" ++ ":" ++ third ++ ":" ++ fourth)
        "activity-terrain-tool:" (by decide) (by decide)
      exact .inr (by simpa only [String.append_assoc] using hkey)
    · exact .inl rfl
  · exact .inl rfl

theorem canonicalKey_of_not_legacy {key : Key} (hlegacy : isLegacy key = false) : canonicalKey key = key := by
  rcases canonicalize_cases key with hsame | ⟨scheme, hscheme, rest, hmoved⟩
  · rw [canonicalKey, hsame]
  · simp [isLegacy, hmoved] at hlegacy

theorem canonical_of_legacy {key : Key} (hlegacy : isLegacy key = true) :
    ∃ scheme ∈ legacySchemes, ∃ rest, canonicalKey key = "activity-" ++ scheme ++ ":" ++ rest := by
  rcases canonicalize_cases key with hsame | ⟨scheme, hscheme, rest, hmoved⟩
  · simp [isLegacy, hsame] at hlegacy
  · exact ⟨scheme, hscheme, rest, by rw [canonicalKey, hmoved]⟩

/-- A canonical key has no legacy form. -/
theorem not_legacy_canonicalKey (key : Key) : isLegacy (canonicalKey key) = false := by
  cases hlegacy : isLegacy key with
  | false => rw [canonicalKey_of_not_legacy hlegacy, hlegacy]
  | true =>
    obtain ⟨scheme, hscheme, rest, hcanonical⟩ := canonical_of_legacy hlegacy
    have hfirst : ∀ scheme ∈ legacySchemes, splitKeyParts ("activity-" ++ scheme) = ["activity-" ++ scheme] ∧
        "activity-" ++ scheme ∉ legacySchemes := by decide +kernel
    obtain ⟨hone, hforeign⟩ := hfirst scheme hscheme
    have hparts : splitKeyParts (canonicalKey key) = ("activity-" ++ scheme) :: splitKeyParts rest := by
      rw [hcanonical, splitKeyParts_append, hone, List.singleton_append]
    rw [isLegacy, canonicalize_of_scheme hparts hforeign]

theorem canonicalKey_canonicalKey (key : Key) : canonicalKey (canonicalKey key) = canonicalKey key :=
  canonicalKey_of_not_legacy (not_legacy_canonicalKey key)

theorem canonicalKey_eq_self {key : Key} : canonicalKey key = key ↔ isLegacy key = false := by
  constructor
  · intro heq
    rw [← heq]
    exact not_legacy_canonicalKey key
  · exact canonicalKey_of_not_legacy

end Space2.GraphMaps
