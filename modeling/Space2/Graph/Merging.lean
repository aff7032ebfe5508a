import Space2.ReferenceLifecycle.Keys
import Space2.Base.Checks

/-!
# Merging a capture into the saved maps

A capture holds what the loaded maps know; the saved record may hold more. Maps are merged by their
ids and explicit edges by their composed addresses: what the capture holds wins, the native fields
also where they are cleared, and other fields of the record stay. Keys may contain the separator
of an address, and then one address stands for edges between different keys.
-/
namespace Space2.Graph
open ReferenceLifecycle

variable {J : Type}

/-- The fields of a table that are not spelled out. -/
abbrev Fields (J : Type) := String → Option J

/-- An explicit edge; `fields` are its label, its color and what extends it. -/
structure EdgeRow (J : Type) where
  source : Key
  target : Key
  fields : Fields J

/-- A saved or captured map; `fields` are all but the id and the edges. -/
structure MapRecord (J : Type) where
  id : String
  edges : Option (List (EdgeRow J))
  fields : Fields J

structure GraphRecord (J : Type) where
  maps : Option (List (MapRecord J))
  graph : Option J
  fields : Fields J

section Merging

def edgeAddress (source target : Key) : String := source ++ "->" ++ target

def EdgeRow.address (row : EdgeRow J) : String := edgeAddress row.source row.target

/-- The fields of a clone over which another table is laid. -/
def overlay (base top : Fields J) : Fields J := fun field => top field <|> base field

/-- The named fields are set from the table, cleared ones too. -/
def replaceFields (names : List String) (base top : Fields J) : Fields J := fun field =>
  if field ∈ names then top field else base field

def liveEdgeFields : List String := ["label", "color"]

def nativeMapFields : List String :=
  ["nodes", "edges", "islands", "next_island_id", "selected_node_keys", "focused_node_key",
    "view_mode", "outline_root_keys"]

/-- The row a table of rows by address holds: the last one there. -/
def rowAt (rows : List (EdgeRow J)) (address : String) : Option (EdgeRow J) :=
  (rows.filter (·.address = address)).getLast?

def fieldsOf (row : Option (EdgeRow J)) : Fields J := fun field => row.bind fun row => row.fields field

def mergeRow (existing : List (EdgeRow J)) (row : EdgeRow J) : EdgeRow J where
  source := row.source
  target := row.target
  fields := replaceFields liveEdgeFields
    (overlay (fieldsOf (rowAt existing row.address)) row.fields) row.fields

def mergeExplicitEdges (existing current : List (EdgeRow J)) : List (EdgeRow J) :=
  current.map (mergeRow existing)

def mergeReferenceMap (existing : Option (MapRecord J)) (map : MapRecord J) : MapRecord J where
  id := map.id
  edges := map.edges.map (mergeExplicitEdges ((existing.bind MapRecord.edges).getD []))
  fields := overlay (replaceFields nativeMapFields
    (fun field => existing.bind fun entry => entry.fields field) map.fields) map.fields

/-- The map a table of maps by id holds: the last one there. -/
def mapAt (maps : List (MapRecord J)) (id : String) : Option (MapRecord J) :=
  (maps.filter (·.id = id)).getLast?

/-- A captured map over the existing one with its id. -/
def mergeMap (existing : GraphRecord J) (map : MapRecord J) : MapRecord J :=
  mergeReferenceMap (mapAt (existing.maps.getD []) map.id) map

def mergeReferenceMaps (existing captured : GraphRecord J) : GraphRecord J where
  maps := match captured.maps with
    | none => existing.maps
    | some maps => some (maps.map (mergeMap existing))
  graph := match captured.maps with
    | none => captured.graph <|> existing.graph
    | some _ => none
  fields := overlay existing.fields captured.fields

end Merging

/-- What the native managers capture: a map manager keeps its maps by id, and a map captures one
row for each address. -/
structure NativeCapture (J : Type) where
  record : GraphRecord J
  ids : ∀ maps ∈ record.maps, (maps.map MapRecord.id).Nodup
  addresses : ∀ maps ∈ record.maps, ∀ map ∈ maps, ∀ rows ∈ map.edges,
    (rows.map EdgeRow.address).Nodup

section Lossless

/-- The last row between two keys. -/
def rowBetween (rows : List (EdgeRow J)) (source target : Key) : Option (EdgeRow J) :=
  (rows.filter fun row => row.source = source ∧ row.target = target).getLast?

/-- A merged row: its label and color are the captured ones, a field the capture lacks is that of
the existing row between the same keys. -/
structure RowMerged (existing : List (EdgeRow J)) (row merged : EdgeRow J) : Prop where
  source : merged.source = row.source
  target : merged.target = row.target
  live : ∀ field ∈ liveEdgeFields, merged.fields field = row.fields field
  captured : ∀ field value, row.fields field = some value → merged.fields field = some value
  extra : ∀ field, field ∉ liveEdgeFields → row.fields field = none →
    merged.fields field = fieldsOf (rowBetween existing row.source row.target) field

structure MapMerged (existing : Option (MapRecord J)) (map merged : MapRecord J) : Prop where
  id : merged.id = map.id
  native : ∀ field ∈ nativeMapFields, merged.fields field = map.fields field
  captured : ∀ field value, map.fields field = some value → merged.fields field = some value
  opaque_field : ∀ field, field ∉ nativeMapFields → map.fields field = none →
    merged.fields field = existing.bind fun entry => entry.fields field
  cleared : map.edges = none → merged.edges = none
  edges : ∀ rows, map.edges = some rows → ∃ rows', merged.edges = some rows' ∧
    List.Forall₂ (RowMerged ((existing.bind MapRecord.edges).getD [])) rows rows'

/-- A lossless merge, done after one time. -/
structure Lossless (existing captured merged : GraphRecord J) : Prop where
  maps : ∀ maps, captured.maps = some maps → ∃ maps', merged.maps = some maps' ∧
    List.Forall₂ (fun map map' => MapMerged (mapAt (existing.maps.getD []) map.id) map map') maps maps'
  again : mergeReferenceMaps merged captured = merged

/-- Where a captured row lacks a field, the existing row at its address has what the existing row
between its keys has. -/
def AddressesTell (existing : List (EdgeRow J)) (row : EdgeRow J) : Prop :=
  ∀ field, field ∉ liveEdgeFields → row.fields field = none →
    fieldsOf (rowAt existing row.address) field =
      fieldsOf (rowBetween existing row.source row.target) field

end Lossless

section Rows
variable {existing rows : List (EdgeRow J)} {row : EdgeRow J}

theorem mergeRow_live {field : String} (h : field ∈ liveEdgeFields) :
    (mergeRow existing row).fields field = row.fields field := if_pos h

theorem mergeRow_captured {field : String} {value : J} (h : row.fields field = some value) :
    (mergeRow existing row).fields field = some value := by
  by_cases hlive : field ∈ liveEdgeFields
  · rw [mergeRow_live hlive, h]
  · simp [mergeRow, replaceFields, hlive, overlay, h]

theorem mergeRow_extra {field : String} (hlive : field ∉ liveEdgeFields)
    (h : row.fields field = none) :
    (mergeRow existing row).fields field = fieldsOf (rowAt existing row.address) field := by
  simp [mergeRow, replaceFields, hlive, overlay, h]

theorem mergeRow_merged : RowMerged existing row (mergeRow existing row) ↔
    AddressesTell existing row := by
  constructor
  · intro h field hlive hnone
    rw [← mergeRow_extra hlive hnone, h.extra field hlive hnone]
  · intro h
    refine ⟨rfl, rfl, fun field hlive => mergeRow_live hlive, fun field value => mergeRow_captured, ?_⟩
    intro field hlive hnone
    rw [mergeRow_extra hlive hnone, h field hlive hnone]

theorem mergeExplicitEdges_merged :
    List.Forall₂ (RowMerged existing) rows (mergeExplicitEdges existing rows) ↔
      ∀ row ∈ rows, AddressesTell existing row := by
  rw [mergeExplicitEdges, List.forall₂_map_right_iff, List.forall₂_same]
  exact forall₂_congr fun row _ => mergeRow_merged

/-- Among members with keys of their own the last one at a key is the one that has it. -/
theorem last_at {α β κ : Type} [DecidableEq κ] (f : α → β) (key : β → κ) {l : List α} {a : α}
    (hnodup : (l.map fun a => key (f a)).Nodup) (ha : a ∈ l) :
    ((l.map f).filter (key · = key (f a))).getLast? = some (f a) := by
  induction l with
  | nil => cases ha
  | cons b l ih =>
    obtain ⟨hnew, hrest⟩ := List.nodup_cons.mp hnodup
    rcases List.mem_cons.mp ha with rfl | ha
    · have hnone : (l.map f).filter (key · = key (f a)) = [] := by
        simp only [List.filter_eq_nil_iff, List.forall_mem_map, decide_eq_true_eq]
        intro c hc hsame
        exact hnew (List.mem_map.mpr ⟨c, hc, hsame⟩)
      rw [List.map_cons, List.filter_cons_of_pos (by simp), hnone]
      rfl
    · have hne : key (f b) ≠ key (f a) := fun hsame =>
        hnew (List.mem_map.mpr ⟨a, ha, hsame.symm⟩)
      rw [List.map_cons, List.filter_cons_of_neg (by simpa using hne), ih hrest ha]

theorem mergeExplicitEdges_again (h : (rows.map EdgeRow.address).Nodup) :
    mergeExplicitEdges (mergeExplicitEdges existing rows) rows = mergeExplicitEdges existing rows := by
  rw [mergeExplicitEdges, mergeExplicitEdges]
  refine List.map_congr_left fun row hrow => ?_
  have hat : rowAt (rows.map (mergeRow existing)) row.address = some (mergeRow existing row) :=
    last_at (mergeRow existing) EdgeRow.address h hrow
  have hfields : (mergeRow (rows.map (mergeRow existing)) row).fields =
      (mergeRow existing row).fields := by
    funext field
    by_cases hlive : field ∈ liveEdgeFields
    · rw [mergeRow_live hlive, mergeRow_live hlive]
    · cases hvalue : row.fields field with
      | some value => rw [mergeRow_captured hvalue, mergeRow_captured hvalue]
      | none =>
        rw [mergeRow_extra hlive hvalue, hat]
        rfl
  exact congrArg (fun fields => (⟨row.source, row.target, fields⟩ : EdgeRow J)) hfields

end Rows

section Maps
variable {existing : Option (MapRecord J)} {map : MapRecord J}

theorem mergeReferenceMap_native {field : String} (h : field ∈ nativeMapFields) :
    (mergeReferenceMap existing map).fields field = map.fields field := by
  cases hvalue : map.fields field <;>
    simp [mergeReferenceMap, overlay, replaceFields, h, hvalue]

theorem mergeReferenceMap_captured {field : String} {value : J} (h : map.fields field = some value) :
    (mergeReferenceMap existing map).fields field = some value := by
  simp [mergeReferenceMap, overlay, h]

theorem mergeReferenceMap_other {field : String} (hnative : field ∉ nativeMapFields)
    (h : map.fields field = none) : (mergeReferenceMap existing map).fields field =
      existing.bind fun entry => entry.fields field := by
  simp [mergeReferenceMap, overlay, replaceFields, hnative, h]

theorem mergeReferenceMap_merged : MapMerged existing map (mergeReferenceMap existing map) ↔
    ∀ rows, map.edges = some rows → ∀ row ∈ rows,
      AddressesTell ((existing.bind MapRecord.edges).getD []) row := by
  constructor
  · intro h rows hrows
    obtain ⟨rows', hmerged, hall⟩ := h.edges rows hrows
    simp only [mergeReferenceMap, hrows, Option.map_some, Option.some.injEq] at hmerged
    exact mergeExplicitEdges_merged.mp (hmerged ▸ hall)
  · intro h
    refine ⟨rfl, fun field => mergeReferenceMap_native, fun field value => mergeReferenceMap_captured,
      fun field => mergeReferenceMap_other, fun hnone => ?_, fun rows hrows => ?_⟩
    · simp [mergeReferenceMap, hnone]
    · exact ⟨_, by simp [mergeReferenceMap, hrows], mergeExplicitEdges_merged.mpr (h rows hrows)⟩

theorem mergeReferenceMap_again (h : ∀ rows ∈ map.edges, (rows.map EdgeRow.address).Nodup) :
    mergeReferenceMap (some (mergeReferenceMap existing map)) map = mergeReferenceMap existing map := by
  have hfields : (mergeReferenceMap (some (mergeReferenceMap existing map)) map).fields =
      (mergeReferenceMap existing map).fields := by
    funext field
    by_cases hnative : field ∈ nativeMapFields
    · rw [mergeReferenceMap_native hnative, mergeReferenceMap_native hnative]
    · cases hvalue : map.fields field with
      | some value => rw [mergeReferenceMap_captured hvalue, mergeReferenceMap_captured hvalue]
      | none =>
        rw [mergeReferenceMap_other hnative hvalue]
        rfl
  have hedges : (mergeReferenceMap (some (mergeReferenceMap existing map)) map).edges =
      (mergeReferenceMap existing map).edges := by
    cases hrows : map.edges with
    | none => simp [mergeReferenceMap, hrows]
    | some rows =>
      simp [mergeReferenceMap, hrows, mergeExplicitEdges_again (h rows hrows)]
  exact congrArg₂ (fun edges fields => (⟨map.id, edges, fields⟩ : MapRecord J)) hedges hfields

end Maps

theorem mergeReferenceMaps_again (existing : GraphRecord J) (captured : NativeCapture J) :
    mergeReferenceMaps (mergeReferenceMaps existing captured.record) captured.record =
      mergeReferenceMaps existing captured.record := by
  have hfields : overlay (overlay existing.fields captured.record.fields) captured.record.fields =
      overlay existing.fields captured.record.fields := by
    funext field
    cases hvalue : captured.record.fields field <;> simp [overlay, hvalue]
  cases hmaps : captured.record.maps with
  | none =>
    have hgraph : (captured.record.graph <|> captured.record.graph <|> existing.graph) =
        (captured.record.graph <|> existing.graph) := by
      cases captured.record.graph <;> rfl
    simp only [mergeReferenceMaps, hmaps, hgraph, hfields]
  | some maps =>
    have hids : (maps.map fun map => (mergeMap existing map).id).Nodup := captured.ids maps hmaps
    have hlist : maps.map (mergeMap (mergeReferenceMaps existing captured.record)) =
        maps.map (mergeMap existing) := by
      refine List.map_congr_left fun map hmap => ?_
      have hat : mapAt (maps.map (mergeMap existing)) map.id = some (mergeMap existing map) :=
        last_at (mergeMap existing) MapRecord.id hids hmap
      have hmerged : (mergeReferenceMaps existing captured.record).maps.getD [] =
          maps.map (mergeMap existing) := by simp [mergeReferenceMaps, hmaps]
      rw [mergeMap, hmerged, hat]
      exact mergeReferenceMap_again (captured.addresses maps hmaps map hmap)
    have hmerged : mergeReferenceMaps existing captured.record =
        ⟨some (maps.map (mergeMap existing)), none,
          overlay existing.fields captured.record.fields⟩ := by
      simp only [mergeReferenceMaps, hmaps]
    rw [hmerged] at hlist ⊢
    simp only [mergeReferenceMaps, hmaps, hfields, hlist]

/-- The merge is lossless exactly where the addresses of existing rows tell their keys apart. -/
theorem merge_lossless_iff (existing : GraphRecord J) (captured : NativeCapture J) :
    Lossless existing captured.record (mergeReferenceMaps existing captured.record) ↔
      ∀ maps, captured.record.maps = some maps → ∀ map ∈ maps, ∀ rows, map.edges = some rows →
        ∀ row ∈ rows, AddressesTell
          (((mapAt (existing.maps.getD []) map.id).bind MapRecord.edges).getD []) row := by
  have hall : ∀ maps, captured.record.maps = some maps →
      (mergeReferenceMaps existing captured.record).maps = some (maps.map (mergeMap existing)) := by
    intro maps hmaps
    simp only [mergeReferenceMaps, hmaps]
  constructor
  · intro h maps hmaps map hmap
    obtain ⟨maps', hmaps', hmerged⟩ := h.maps maps hmaps
    obtain rfl := Option.some.inj ((hall maps hmaps).symm.trans hmaps')
    rw [List.forall₂_map_right_iff, List.forall₂_same] at hmerged
    exact mergeReferenceMap_merged.mp (hmerged map hmap)
  · intro h
    refine ⟨fun maps hmaps => ⟨_, hall maps hmaps, ?_⟩, mergeReferenceMaps_again existing captured⟩
    rw [List.forall₂_map_right_iff, List.forall₂_same]
    exact fun map hmap => mergeReferenceMap_merged.mpr (h maps hmaps map hmap)

/-! An edge from `a` to `b->c` gets the note of the edge from `a->b` to `c`. -/

def noted : GraphRecord String where
  maps := some [⟨"main", some [⟨"a->b", "c", fun field => if field = "note" then some "far" else none⟩],
    fun _ => none⟩]
  graph := none
  fields := fun _ => none

def plain : NativeCapture String where
  record := ⟨some [⟨"main", some [⟨"a", "b->c", fun _ => none⟩], fun _ => none⟩], none, fun _ => none⟩
  ids := by simp
  addresses := by simp

theorem note_of_other_edge : 
    ¬ Lossless noted plain.record (mergeReferenceMaps noted plain.record) := by
  intro h
  obtain ⟨maps, hmaps, hall⟩ := h.maps _ rfl
  obtain rfl := Option.some.inj hmaps
  obtain ⟨hmap, -⟩ := List.forall₂_cons.mp hall
  obtain ⟨rows, hrows, hmerged⟩ := hmap.edges _ rfl
  obtain rfl := Option.some.inj hrows
  obtain ⟨hrow, -⟩ := List.forall₂_cons.mp hmerged
  have hextra := hrow.extra "note" (by decide) rfl
  exact absurd hextra (by decide)

end Space2.Graph
