import Space2.GraphMaps.LegacyKeys

/-!
# Migrating a saved map

Migration rewrites each kind of reference by code of its own. Here all of them are
compared with one rule: a reference with a legacy form gets its canonical form, any other
stays, and a second migration changes nothing. The members of islands are not rewritten.
-/
namespace Space2.GraphMaps

open Space2.Base

variable {J : Type}

/-! ## The rule -/

structure EntryAlike (entry migrated : MapEntry J) : Prop where
  nodes_sublist : migrated.nodes.Sublist (entry.nodes.map canonicalKey)
  nodes_nodup : migrated.nodes.Nodup
  mem_nodes : ∀ key ∈ entry.nodes, canonicalKey key ∈ migrated.nodes
  edges_sublist : migrated.edges.Sublist (entry.edges.map SavedEdge.canonical)
  edges_nodup : (migrated.edges.map SavedEdge.address).Nodup
  mem_edges : ∀ edge ∈ entry.edges, edge.collapses = false →
    edge.canonical.address ∈ migrated.edges.map SavedEdge.address
  selected : migrated.selectedNodeKeys = entry.selectedNodeKeys.map canonicalKey
  focused : migrated.focusedNodeKey = entry.focusedNodeKey.map canonicalKey
  outline : migrated.outlineRootKeys = entry.outlineRootKeys.map canonicalKey
  islands : (migrated.islands.map fun island => island.members) =
    entry.islands.map fun island => island.members.map canonicalKey

/-- Only the keys of the map's nodes stay. -/
structure TableAlike (valid : Key → Bool) (before after : Table J) : Prop where
  not_legacy : ∀ key ∈ after, isLegacy key = false
  kept : ∀ key value, isLegacy key = false → valid key = true → before.lookup key = some value →
    after.lookup key = some value
  carried : ∀ key ∈ before, valid (canonicalKey key) = true → canonicalKey key ∈ after
  origin : ∀ key value, after.lookup key = some value →
    ∃ old, before.lookup old = some value ∧ canonicalKey old = key

structure PanelsAlike (valid : Key → Bool) (mapId : String) (before after : List (Panel J)) : Prop where
  origin : ∀ panel ∈ after, ∃ old ∈ before,
    panel.nodeKey = old.nodeKey.map canonicalKey ∧ panel.kind = old.kind ∧ panel.rest = old.rest
  carried : ∀ old ∈ before, (old.nodeKey.map canonicalKey).any valid = true →
    (old.graphMapId.all fun id => id = mapId) = true → ∃ panel ∈ after,
      panel.nodeKey = old.nodeKey.map canonicalKey ∧ panel.kind = old.kind ∧ panel.rest = old.rest

structure MetadataAlike (valid : Key → Bool) (mapId : String) (before after : Metadata J) : Prop where
  positions : TableAlike valid before.positions after.positions
  presentations : TableAlike valid before.presentations after.presentations
  sizes : TableAlike valid before.sizes after.sizes
  panels : PanelsAlike valid mapId before.panels after.panels
  extraPanels : PanelsAlike valid mapId before.extraPanels after.extraPanels

/-- Every reference of the entry and of the metadata is migrated by the rule, once. -/
structure MigratesAlike (valid : Key → Bool) (mapId : String) (entry : MapEntry J) (metadata : Metadata J) :
    Prop where
  entry_alike : EntryAlike entry (migrateMapEntryState entry)
  metadata_alike : MetadataAlike valid mapId metadata (pruneMetadataForState valid mapId metadata)
  entry_again : migrateMapEntryState (migrateMapEntryState entry) = migrateMapEntryState entry
  metadata_again : pruneMetadataForState valid mapId (pruneMetadataForState valid mapId metadata) =
    pruneMetadataForState valid mapId metadata

/-! ## Edges -/

theorem migrateEdges_sublist (edgeSet : List String) (edges : List (SavedEdge J)) :
    (migrateEdges edgeSet edges).Sublist (edges.map SavedEdge.canonical) := by
  induction edges generalizing edgeSet with
  | nil => exact List.Sublist.refl _
  | cons edge rest ih =>
    rw [migrateEdges, List.map_cons]
    split_ifs
    · exact (ih edgeSet).cons _
    · exact (ih _).cons_cons _

theorem migrateEdges_nodup (edgeSet : List String) (edges : List (SavedEdge J)) :
    ((migrateEdges edgeSet edges).map SavedEdge.address).Nodup ∧
      ∀ address ∈ (migrateEdges edgeSet edges).map SavedEdge.address, address ∉ edgeSet := by
  induction edges generalizing edgeSet with
  | nil => simp [migrateEdges]
  | cons edge rest ih =>
    rw [migrateEdges]
    split_ifs with hskip
    · exact ih edgeSet
    · obtain ⟨hnodup, hfresh⟩ := ih (edge.canonical.address :: edgeSet)
      have hnew : edge.canonical.address ∉ edgeSet := fun hmem => hskip (.inr hmem)
      rw [List.map_cons]
      refine ⟨List.nodup_cons.mpr ⟨fun hmem => hfresh _ hmem List.mem_cons_self, hnodup⟩, ?_⟩
      intro address hmem
      rcases List.mem_cons.mp hmem with rfl | hmem
      · exact hnew
      · exact fun hold => hfresh address hmem (List.mem_cons_of_mem _ hold)

theorem mem_migrateEdges {edgeSet : List String} {edges : List (SavedEdge J)} {edge : SavedEdge J}
    (hedge : edge ∈ edges) (hcollapses : edge.collapses = false) :
    edge.canonical.address ∈ (migrateEdges edgeSet edges).map SavedEdge.address ∨
      edge.canonical.address ∈ edgeSet := by
  induction edges generalizing edgeSet with
  | nil => simp at hedge
  | cons first rest ih =>
    rw [migrateEdges]
    rcases List.mem_cons.mp hedge with rfl | hrest
    · split_ifs with hskip
      · rcases hskip with htrue | hmem
        · rw [hcollapses] at htrue
          cases htrue
        · exact .inr hmem
      · exact .inl (by simp)
    · split_ifs with hskip
      · exact ih hrest
      · rw [List.map_cons]
        rcases @ih (first.canonical.address :: edgeSet) hrest with hkept | hold
        · exact .inl (List.mem_cons_of_mem _ hkept)
        · rcases List.mem_cons.mp hold with heq | hold
          · exact .inl (by simp [heq])
          · exact .inr hold

theorem SavedEdge.canonical_canonical (edge : SavedEdge J) : edge.canonical.canonical = edge.canonical := by
  simp [SavedEdge.canonical, canonicalKey_canonicalKey]

theorem SavedEdge.collapses_canonical (edge : SavedEdge J) : edge.canonical.collapses = false := by
  simp [SavedEdge.collapses, SavedEdge.canonical, not_legacy_canonicalKey]

/-- Canonical edges with addresses of their own stay as they are. -/
theorem migrateEdges_of_canonical {edgeSet : List String} {edges : List (SavedEdge J)}
    (hcanonical : ∀ edge ∈ edges, edge.canonical = edge) (hnodup : (edges.map SavedEdge.address).Nodup)
    (hfresh : ∀ address ∈ edges.map SavedEdge.address, address ∉ edgeSet) : migrateEdges edgeSet edges = edges := by
  induction edges generalizing edgeSet with
  | nil => rfl
  | cons edge rest ih =>
    have hedge := hcanonical edge List.mem_cons_self
    obtain ⟨hfirst, hrest⟩ := List.nodup_cons.mp hnodup
    have hcollapses : edge.collapses = false := by
      rw [← hedge]
      exact edge.collapses_canonical
    have hnew : edge.address ∉ edgeSet := hfresh _ (by simp)
    rw [migrateEdges, hedge, if_neg (by simp [hcollapses, hnew])]
    rw [ih (fun other hother => hcanonical other (List.mem_cons_of_mem _ hother)) hrest]
    intro address hmem hold
    rcases List.mem_cons.mp hold with rfl | hold
    · exact hfirst hmem
    · exact hfresh address (List.mem_cons_of_mem _ hmem) hold

theorem migrateEdges_migrateEdges (edges : List (SavedEdge J)) :
    migrateEdges [] (migrateEdges [] edges) = migrateEdges [] edges := by
  apply migrateEdges_of_canonical
  · intro edge hedge
    obtain ⟨old, -, rfl⟩ := List.mem_map.mp ((migrateEdges_sublist [] edges).subset hedge)
    exact old.canonical_canonical
  · exact (migrateEdges_nodup [] edges).1
  · simp

/-! ## The entry -/

theorem map_canonicalKey_map (keys : List Key) : (keys.map canonicalKey).map canonicalKey = keys.map canonicalKey := by
  simp [canonicalKey_canonicalKey]

theorem map_canonicalKey_eq_self {keys : List Key} : keys.map canonicalKey = keys ↔ ∀ key ∈ keys, isLegacy key = false := by
  constructor
  · intro heq key hkey
    rw [← heq] at hkey
    obtain ⟨old, -, rfl⟩ := List.mem_map.mp hkey
    exact not_legacy_canonicalKey old
  · intro hkeys
    calc keys.map canonicalKey = keys.map id :=
          List.map_congr_left fun key hkey => canonicalKey_of_not_legacy (hkeys key hkey)
      _ = keys := List.map_id keys

/-- A second migration changes nothing. -/
theorem migrateMapEntryState_again (entry : MapEntry J) :
    migrateMapEntryState (migrateMapEntryState entry) = migrateMapEntryState entry := by
  have hnodes : keepFirst (fun _ => true) ((keepFirst (fun _ => true) (entry.nodes.map canonicalKey)).map canonicalKey) =
      keepFirst (fun _ => true) (entry.nodes.map canonicalKey) := by
    have hcanonical : (keepFirst (fun _ => true) (entry.nodes.map canonicalKey)).map canonicalKey =
        keepFirst (fun _ => true) (entry.nodes.map canonicalKey) := by
      rw [map_canonicalKey_eq_self]
      intro key hkey
      obtain ⟨old, -, rfl⟩ := List.mem_map.mp (mem_keepFirst.mp hkey)
      exact not_legacy_canonicalKey old
    rw [hcanonical, keepFirst_keepFirst]
  have hkeys : canonicalKey ∘ canonicalKey = canonicalKey := funext canonicalKey_canonicalKey
  simp only [migrateMapEntryState, hnodes, migrateEdges_migrateEdges, map_canonicalKey_map, Option.map_map,
    Option.getD_some, hkeys]

/-- Islands pass unchanged, so they follow the rule only when no member has a legacy form. -/
theorem entryAlike_iff (entry : MapEntry J) : EntryAlike entry (migrateMapEntryState entry) ↔
    ∀ island ∈ entry.islands, ∀ member ∈ island.members, isLegacy member = false := by
  constructor
  · intro halike island hisland
    have hislands : (entry.islands.map fun island => island.members) =
        entry.islands.map fun island => island.members.map canonicalKey := halike.islands
    have hmembers := List.map_inj_left.mp hislands island hisland
    exact map_canonicalKey_eq_self.mp hmembers.symm
  · intro hmembers
    constructor
    · exact keepFirst_sublist
    · exact keepFirst_nodup (by simp)
    · intro key hkey
      exact mem_keepFirst.mpr (List.mem_map_of_mem hkey)
    · exact migrateEdges_sublist [] entry.edges
    · exact (migrateEdges_nodup [] entry.edges).1
    · intro edge hedge hcollapses
      rcases mem_migrateEdges hedge hcollapses with hkept | hnone
      · exact hkept
      · cases hnone
    · rfl
    · rfl
    · rfl
    · apply List.map_congr_left
      intro island hisland
      exact (map_canonicalKey_eq_self.mpr (hmembers island hisland)).symm

/-! ## Tables -/

theorem lookup_migrateKey (tbl : Table J) (key other : Key) : (migrateKey tbl key).lookup other =
    if isLegacy key = false then tbl.lookup other
    else if other = key then none
    else if other = canonicalKey key then (tbl.lookup other).or (tbl.lookup key) else tbl.lookup other := by
  rw [migrateKey]
  cases hlegacy : isLegacy key with
  | false => simp
  | true =>
    have hmoved : canonicalKey key ≠ key := fun heq => by simp [canonicalKey_eq_self.mp heq] at hlegacy
    by_cases hself : other = key
    · subst hself
      cases hvalue : tbl.lookup other with
      | none => simp [hvalue]
      | some value => simp
    · cases hvalue : tbl.lookup key with
      | none => simp [hself]
      | some value =>
        by_cases hother : other = canonicalKey key
        · subst hother
          cases hold : tbl.lookup (canonicalKey key) with
          | none => simp [AList.lookup_erase_ne hmoved, hmoved]
          | some old => simp [hold, AList.lookup_erase_ne hmoved, hmoved]
        · by_cases hold : tbl.lookup (canonicalKey key) = none
          · simp [hold, hself, hother, AList.lookup_erase_ne hself, AList.lookup_insert_ne hother]
          · simp [hold, hself, hother, AList.lookup_erase_ne hself]

theorem mem_of_value {tbl : Table J} {key : Key} {value : J} (hvalue : tbl.lookup key = some value) : key ∈ tbl :=
  AList.lookup_isSome.mp (by rw [hvalue, Option.isSome_some])

theorem exists_lookup {tbl : Table J} {key : Key} (hkey : key ∈ tbl) : ∃ value, tbl.lookup key = some value :=
  Option.isSome_iff_exists.mp (AList.lookup_isSome.mpr hkey)

/-- What migrating some keys does to a table. -/
structure Moved (keys : List Key) (before after : Table J) : Prop where
  stays : ∀ key value, isLegacy key = false → before.lookup key = some value → after.lookup key = some value
  leaves : ∀ key ∈ keys, isLegacy key = true → key ∉ after
  carried : ∀ key ∈ before, key ∈ after ∨ canonicalKey key ∈ after
  origin : ∀ key value, after.lookup key = some value →
    ∃ old, before.lookup old = some value ∧ (old = key ∨ canonicalKey old = key)

theorem migrateKey_moved (tbl : Table J) (key : Key) : Moved [key] tbl (migrateKey tbl key) := by
  constructor
  · intro other value hother hvalue
    rw [lookup_migrateKey]
    split_ifs with hplain hself hcanonical
    · exact hvalue
    · subst hself
      exact absurd hother hplain
    · rw [hvalue, Option.some_or]
    · exact hvalue
  · intro other hmem hlegacy
    rw [List.mem_singleton.mp hmem] at hlegacy ⊢
    rw [← AList.lookup_eq_none, lookup_migrateKey, if_neg (by simp [hlegacy]), if_pos rfl]
  · intro other hmem
    obtain ⟨value, hvalue⟩ := exists_lookup hmem
    by_cases hmoves : isLegacy key = true ∧ other = key
    · obtain ⟨hlegacy, rfl⟩ := hmoves
      refine .inr (AList.lookup_isSome.mp ?_)
      rw [lookup_migrateKey, if_neg (by simp [hlegacy])]
      have hmoved : canonicalKey other ≠ other := fun heq => by simp [canonicalKey_eq_self.mp heq] at hlegacy
      rw [if_neg hmoved, if_pos rfl, hvalue]
      simp
    · refine .inl (AList.lookup_isSome.mp ?_)
      rw [lookup_migrateKey]
      split_ifs with hplain hself hcanonical
      · simp [hvalue]
      · exact absurd ⟨by simpa using hplain, hself⟩ hmoves
      · simp [hvalue]
      · simp [hvalue]
  · intro other value hvalue
    rw [lookup_migrateKey] at hvalue
    split_ifs at hvalue with hplain hself hcanonical
    · exact ⟨other, hvalue, .inl rfl⟩
    · rcases Option.or_eq_some_iff.mp hvalue with hold | ⟨-, hmoved⟩
      · exact ⟨other, hold, .inl rfl⟩
      · exact ⟨key, hmoved, .inr hcanonical.symm⟩
    · exact ⟨other, hvalue, .inl rfl⟩

theorem Moved.trans {first rest : List Key} {before between after : Table J} (hfirst : Moved first before between)
    (hrest : Moved rest between after) : Moved (first ++ rest) before after := by
  constructor
  · intro key value hlegacy hvalue
    exact hrest.stays key value hlegacy (hfirst.stays key value hlegacy hvalue)
  · intro key hmem hlegacy hafter
    rcases List.mem_append.mp hmem with hmem | hmem
    · obtain ⟨value, hvalue⟩ := exists_lookup hafter
      obtain ⟨old, hold, rfl | hcanonical⟩ := hrest.origin key value hvalue
      · exact hfirst.leaves old hmem hlegacy (mem_of_value hold)
      · simp [← hcanonical, not_legacy_canonicalKey] at hlegacy
    · exact hrest.leaves key hmem hlegacy hafter
  · intro key hmem
    rcases hfirst.carried key hmem with hsame | hmoved
    · exact hrest.carried key hsame
    · obtain ⟨value, hvalue⟩ := exists_lookup hmoved
      exact .inr (mem_of_value (hrest.stays _ value (not_legacy_canonicalKey key) hvalue))
  · intro key value hvalue
    obtain ⟨mid, hmid, hkey⟩ := hrest.origin key value hvalue
    obtain ⟨old, hold, rfl | rfl⟩ := hfirst.origin mid value hmid
    · exact ⟨old, hold, hkey⟩
    · rcases hkey with rfl | rfl
      · exact ⟨old, hold, .inr rfl⟩
      · exact ⟨old, hold, .inr (canonicalKey_canonicalKey old).symm⟩

theorem foldl_migrateKey_moved (keys : List Key) (tbl : Table J) : Moved keys tbl (keys.foldl migrateKey tbl) := by
  induction keys generalizing tbl with
  | nil => exact ⟨fun _ _ _ h => h, by simp, fun key hkey => .inl hkey, fun key _ h => ⟨key, h, .inl rfl⟩⟩
  | cons first rest ih => exact (migrateKey_moved tbl first).trans (ih (migrateKey tbl first))

theorem migrateKeyedMetadataTable_moved (tbl : Table J) : Moved tbl.keys tbl (migrateKeyedMetadataTable tbl) := by
  have hmoved := foldl_migrateKey_moved (tbl.keys.mergeSort fun a b => a ≤ b) tbl
  exact ⟨hmoved.stays, fun key hkey => hmoved.leaves key (List.mem_mergeSort.mpr hkey), hmoved.carried, hmoved.origin⟩

theorem not_legacy_of_mem_migrated {tbl : Table J} {key : Key} (hkey : key ∈ migrateKeyedMetadataTable tbl) :
    isLegacy key = false := by
  have hmoved := migrateKeyedMetadataTable_moved tbl
  cases hlegacy : isLegacy key with
  | false => rfl
  | true =>
    obtain ⟨value, hvalue⟩ := exists_lookup hkey
    obtain ⟨old, hold, rfl | hcanonical⟩ := hmoved.origin key value hvalue
    · exact absurd hkey (hmoved.leaves old (mem_of_value hold) hlegacy)
    · simp [← hcanonical, not_legacy_canonicalKey] at hlegacy

theorem foldl_erase_lookup (valid : Key → Bool) (keys : List Key) (tbl : Table J) (other : Key) :
    (keys.foldl (fun tbl key => if valid key = true then tbl else tbl.erase key) tbl).lookup other =
      if other ∈ keys ∧ valid other = false then none else tbl.lookup other := by
  induction keys generalizing tbl with
  | nil => simp
  | cons key rest ih =>
    rw [List.foldl_cons, ih]
    by_cases hself : other = key
    · subst hself
      cases hvalid : valid other <;> simp
    · cases hvalid : valid key <;> simp [hself, AList.lookup_erase_ne hself]

theorem lookup_pruneTable (valid : Key → Bool) (tbl : Table J) (key : Key) :
    (pruneTable valid tbl).lookup key = if valid key = true then tbl.lookup key else none := by
  rw [pruneTable, foldl_erase_lookup]
  cases hvalid : valid key with
  | true => simp
  | false =>
    by_cases hkey : key ∈ tbl
    · simp [AList.mem_keys.mp hkey]
    · simp [AList.lookup_eq_none.mpr hkey]

theorem tableAlike (valid : Key → Bool) (tbl : Table J) :
    TableAlike valid tbl (pruneTable valid (migrateKeyedMetadataTable tbl)) := by
  have hmoved := migrateKeyedMetadataTable_moved tbl
  have hbefore (key : Key) (value : J)
      (hvalue : (pruneTable valid (migrateKeyedMetadataTable tbl)).lookup key = some value) :
      (migrateKeyedMetadataTable tbl).lookup key = some value := by
    rw [lookup_pruneTable] at hvalue
    split_ifs at hvalue
    exact hvalue
  constructor
  · intro key hkey
    obtain ⟨value, hvalue⟩ := exists_lookup hkey
    exact not_legacy_of_mem_migrated (mem_of_value (hbefore key value hvalue))
  · intro key value hlegacy hvalid hvalue
    rw [lookup_pruneTable, if_pos hvalid]
    exact hmoved.stays key value hlegacy hvalue
  · intro key hkey hvalid
    have hcanonical : canonicalKey key ∈ migrateKeyedMetadataTable tbl := by
      rcases hmoved.carried key hkey with hsame | hcanonical
      · rwa [canonicalKey_of_not_legacy (not_legacy_of_mem_migrated hsame)]
      · exact hcanonical
    rw [← AList.lookup_isSome, lookup_pruneTable, if_pos hvalid]
    exact AList.lookup_isSome.mpr hcanonical
  · intro key value hvalue
    have hkey := hbefore key value hvalue
    obtain ⟨old, hold, rfl | hcanonical⟩ := hmoved.origin key value hkey
    · exact ⟨old, hold, canonicalKey_of_not_legacy (not_legacy_of_mem_migrated (mem_of_value hkey))⟩
    · exact ⟨old, hold, hcanonical⟩

theorem migrateKeyedMetadataTable_eq_self {tbl : Table J} (htbl : ∀ key ∈ tbl, isLegacy key = false) :
    migrateKeyedMetadataTable tbl = tbl := by
  suffices hfold : ∀ keys : List Key, (∀ key ∈ keys, isLegacy key = false) → keys.foldl migrateKey tbl = tbl by
    exact hfold _ fun key hkey => htbl key (AList.mem_keys.mpr (List.mem_mergeSort.mp hkey))
  intro keys hkeys
  induction keys with
  | nil => rfl
  | cons first rest ih =>
    rw [List.foldl_cons, migrateKey, if_neg (by simp [hkeys first List.mem_cons_self])]
    exact ih fun key hkey => hkeys key (List.mem_cons_of_mem first hkey)

theorem pruneTable_eq_self {valid : Key → Bool} {tbl : Table J} (htbl : ∀ key ∈ tbl, valid key = true) :
    pruneTable valid tbl = tbl := by
  suffices hfold : ∀ keys : List Key, (∀ key ∈ keys, valid key = true) →
      keys.foldl (fun tbl key => if valid key = true then tbl else tbl.erase key) tbl = tbl by
    exact hfold _ fun key hkey => htbl key (AList.mem_keys.mpr hkey)
  intro keys hkeys
  induction keys with
  | nil => rfl
  | cons first rest ih =>
    rw [List.foldl_cons, if_pos (hkeys first List.mem_cons_self)]
    exact ih fun key hkey => hkeys key (List.mem_cons_of_mem first hkey)

theorem table_again (valid : Key → Bool) (tbl : Table J) :
    pruneTable valid (migrateKeyedMetadataTable (pruneTable valid (migrateKeyedMetadataTable tbl))) =
      pruneTable valid (migrateKeyedMetadataTable tbl) := by
  rw [migrateKeyedMetadataTable_eq_self (tableAlike valid tbl).not_legacy]
  apply pruneTable_eq_self
  intro key hkey
  obtain ⟨value, hvalue⟩ := exists_lookup hkey
  rw [lookup_pruneTable] at hvalue
  split_ifs at hvalue with hvalid
  exact hvalid

/-! ## Panels -/

/-- What taking a panel for the map may change: a panel of no map becomes one of this map. -/
structure Claims (mapId : String) (claim : Panel J → Panel J) : Prop where
  nodeKey : ∀ panel, (claim panel).nodeKey = panel.nodeKey
  kind : ∀ panel, (claim panel).kind = panel.kind
  rest : ∀ panel, (claim panel).rest = panel.rest
  again : ∀ panel, claim (claim panel) = claim panel
  graphMapId : ∀ panel, (panel.graphMapId.all fun id => id = mapId) = true →
    ((claim panel).graphMapId.all fun id => id = mapId) = true

theorem claims_of_kind (mapId : String) (test : Option String → Prop) [DecidablePred test] :
    Claims mapId fun panel : Panel J => if test panel.kind then panel.claimed mapId else panel := by
  constructor
  · intro panel
    split_ifs <;> rfl
  · intro panel
    split_ifs <;> rfl
  · intro panel
    split_ifs <;> rfl
  · intro panel
    by_cases htest : test panel.kind
    · simp [htest, Panel.claimed]
    · simp [htest]
  · intro panel hmap
    split_ifs
    · cases hid : panel.graphMapId with
      | none => simp [Panel.claimed, hid]
      | some id => simpa [Panel.claimed, hid] using hmap
    · exact hmap

section
variable {mapId : String} {claim : Panel J → Panel J} (valid : Key → Bool)

theorem panelsAlike (hclaim : Claims mapId claim) (panels : List (Panel J)) :
    PanelsAlike valid mapId panels (((migratePanelNodeKeys panels).map claim).filter (Panel.kept valid mapId)) := by
  constructor
  · intro panel hpanel
    obtain ⟨moved, hmoved, rfl⟩ := List.mem_map.mp (List.mem_filter.mp hpanel).1
    obtain ⟨old, hold, rfl⟩ := List.mem_map.mp hmoved
    exact ⟨old, hold, hclaim.nodeKey _, hclaim.kind _, hclaim.rest _⟩
  · intro old hold hvalid hmap
    let moved : Panel J := { old with nodeKey := old.nodeKey.map canonicalKey }
    have hmoved : claim moved ∈ (migratePanelNodeKeys panels).map claim :=
      List.mem_map_of_mem (List.mem_map_of_mem hold)
    have hkept : (claim moved).kept valid mapId = true := by
      rw [Panel.kept, hclaim.nodeKey, hvalid, Bool.true_and]
      exact hclaim.graphMapId moved hmap
    exact ⟨claim moved, List.mem_filter.mpr ⟨hmoved, hkept⟩, hclaim.nodeKey _, hclaim.kind _, hclaim.rest _⟩

theorem panels_again (hclaim : Claims mapId claim) (panels : List (Panel J)) :
    ((migratePanelNodeKeys (((migratePanelNodeKeys panels).map claim).filter (Panel.kept valid mapId))).map
        claim).filter (Panel.kept valid mapId) =
      ((migratePanelNodeKeys panels).map claim).filter (Panel.kept valid mapId) := by
  set kept := ((migratePanelNodeKeys panels).map claim).filter (Panel.kept valid mapId) with hkept
  have hpanel : ∀ panel ∈ kept, panel.nodeKey.map canonicalKey = panel.nodeKey ∧ claim panel = panel := by
    intro panel hmem
    obtain ⟨moved, hmoved, rfl⟩ := List.mem_map.mp (List.mem_filter.mp hmem).1
    obtain ⟨old, -, rfl⟩ := List.mem_map.mp hmoved
    refine ⟨?_, hclaim.again _⟩
    rw [hclaim.nodeKey]
    cases old.nodeKey with
    | none => rfl
    | some key => simp [canonicalKey_canonicalKey]
  have hkeys : migratePanelNodeKeys kept = kept := by
    calc migratePanelNodeKeys kept = kept.map id := by
          apply List.map_congr_left
          intro panel hmem
          rw [(hpanel panel hmem).1, id]
      _ = kept := List.map_id kept
  have hclaimed : kept.map claim = kept := by
    calc kept.map claim = kept.map id := List.map_congr_left fun panel hmem => (hpanel panel hmem).2
      _ = kept := List.map_id kept
  rw [hkeys, hclaimed]
  exact List.filter_eq_self.mpr fun panel hmem => (List.mem_filter.mp hmem).2

end

/-! ## The metadata -/

variable (valid : Key → Bool) (mapId : String) (metadata : Metadata J)

theorem metadataAlike : MetadataAlike valid mapId metadata (pruneMetadataForState valid mapId metadata) where
  positions := tableAlike valid metadata.positions
  presentations := tableAlike valid metadata.presentations
  sizes := tableAlike valid metadata.sizes
  panels := panelsAlike valid (claims_of_kind mapId fun kind => kind = some "graph-node-view") metadata.panels
  extraPanels := panelsAlike valid (claims_of_kind mapId fun kind => kind.isSome = true) metadata.extraPanels

/-- A second migration of the file changes nothing. -/
theorem pruneMetadataForState_again :
    pruneMetadataForState valid mapId (pruneMetadataForState valid mapId metadata) =
      pruneMetadataForState valid mapId metadata := by
  have hpanels := panels_again valid (claims_of_kind mapId fun kind => kind = some "graph-node-view") metadata.panels
  have hextra := panels_again valid (claims_of_kind mapId fun kind => kind.isSome = true) metadata.extraPanels
  rw [pruneMetadataForState, pruneMetadataForState]
  simp only [table_again, hpanels, hextra]

/-- A map saved with the background of a world on an island. -/
def islandEntry : MapEntry Unit where
  nodes := ["background:w1"]
  edges := []
  islands := [⟨["background:w1"], ()⟩]
  selectedNodeKeys := []
  focusedNodeKey := none
  viewMode := none
  outlineRootKeys := []

def emptyMetadata : Metadata Unit := ⟨∅, ∅, ∅, [], []⟩

end Space2.GraphMaps
