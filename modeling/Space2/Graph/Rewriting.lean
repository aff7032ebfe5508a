import Space2.Base.Normalizing
import Space2.Graph.ReferenceState

/-!
# What rewriting makes of a graph state

A delete retires the retiring keys, a morph the source. Rewriting takes the retired keys out of
every documented place and leaves the rest of the state alone, so that rewriting again changes
nothing.
-/
namespace Space2.Graph
open Base ReferenceLifecycle

variable {M : Type} (operation : Operation)

/-- Whether an operation takes a concrete key away. -/
def retires (key : Key) : Bool :=
  operation.kind = .delete && operation.retiring.contains key ||
    operation.kind = .morph && some key = operation.sourceKey

def settledKey (key : Key) : Bool := !retires operation key

def settledPanel (panel : Panel M) : Bool :=
  panel.nodeKey.all (settledKey operation) && panel.inner.all (·.all (settledKey operation))

def settledEdge (edge : Edge M) : Bool :=
  settledKey operation edge.source && settledKey operation edge.target

/-- The island of an ordered list names the list it shows. -/
def settledIsland (island : Island M) : Bool :=
  island.members ≠ [] && decide island.members.Nodup && island.members.all (settledKey operation) &&
    (island.kind ≠ "ordered-list" || island.listKey.all (settledKey operation))

section Rows
variable {operation}
  (hmoves : operation.kind = .morph → operation.targetKey ≠ operation.sourceKey)
include hmoves

theorem concreteKey_normalizes : Normalizes (concreteKey operation) (settledKey operation) := by
  constructor
  · intro key other h
    simp only [concreteKey] at h
    split_ifs at h with hgone hsource
    · have hdelete : operation.kind ≠ .delete := by simp [hsource.1]
      have hother : some other ≠ operation.sourceKey := h ▸ hmoves hsource.1
      simp [settledKey, retires, hdelete, hother]
    · obtain rfl := Option.some.inj h
      rw [not_and_or] at hgone hsource
      simpa [settledKey, retires] using ⟨hgone, hsource⟩
  · intro key h
    simp only [settledKey, retires, Bool.not_eq_true', Bool.or_eq_false_iff, Bool.and_eq_false_iff,
      decide_eq_false_iff_not, List.contains_eq_mem] at h
    rw [concreteKey, if_neg (not_and_or.mpr h.1), if_neg (not_and_or.mpr h.2)]

theorem bind_settled (key : Option Key) :
    (key.bind (concreteKey operation)).all (settledKey operation) = true := by
  rw [Option.all_eq_true]
  intro other hother
  obtain ⟨before, -, hbefore⟩ := Option.bind_eq_some_iff.mp hother
  exact (concreteKey_normalizes hmoves).reaches before other hbefore

theorem bind_of_settled {key : Option Key} (h : key.all (settledKey operation) = true) :
    key.bind (concreteKey operation) = key := by
  cases key with
  | none => rfl
  | some key => exact (concreteKey_normalizes hmoves).keeps key h

theorem rewritePanel_normalizes :
    Normalizes (rewritePanel (M := M) operation) (settledPanel operation) := by
  constructor
  · intro panel other h
    simp only [rewritePanel] at h
    split_ifs at h
    obtain rfl := Option.some.inj h
    rw [settledPanel, Bool.and_eq_true, bind_settled hmoves]
    cases panel.inner with
    | none => exact ⟨rfl, rfl⟩
    | some inner => exact ⟨rfl, bind_settled hmoves inner⟩
  · rintro ⟨nodeKey, inner, fields⟩ h
    rw [settledPanel, Bool.and_eq_true] at h
    have hkey : nodeKey.bind (concreteKey operation) = nodeKey := bind_of_settled hmoves h.1
    have hinner : (inner.map fun inner => inner.bind (concreteKey operation)) = inner := by
      cases inner with
      | none => rfl
      | some inner => exact congrArg some (bind_of_settled hmoves h.2)
    simp only [rewritePanel, hkey, hinner, ne_eq, em, if_true]

theorem rewriteEdge_normalizes :
    Normalizes (rewriteEdge (M := M) operation) (settledEdge operation) := by
  constructor
  · intro edge other h
    simp only [rewriteEdge] at h
    split at h
    next source target hsource htarget =>
      obtain rfl := Option.some.inj h
      rw [settledEdge, (concreteKey_normalizes hmoves).reaches _ _ hsource,
        (concreteKey_normalizes hmoves).reaches _ _ htarget]
      rfl
    next => cases h
  · intro edge h
    rw [settledEdge, Bool.and_eq_true] at h
    simp only [rewriteEdge, (concreteKey_normalizes hmoves).keeps _ h.1,
      (concreteKey_normalizes hmoves).keeps _ h.2]

theorem rewriteKeys_settled (keys : List Key) :
    ∀ key ∈ rewriteKeys operation keys, settledKey operation key = true := by
  intro key hkey
  exact (concreteKey_normalizes hmoves).all keys key (mem_keepFirst.mp hkey)

omit hmoves in
theorem rewriteKeys_nodup (keys : List Key) : (rewriteKeys operation keys).Nodup :=
  keepFirst_nodup fun _ _ => rfl

theorem rewriteKeys_same {keys : List Key} (hnodup : keys.Nodup)
    (h : ∀ key ∈ keys, settledKey operation key = true) : rewriteKeys operation keys = keys := by
  rw [rewriteKeys, (concreteKey_normalizes hmoves).same h]
  exact keepFirstFrom_of_nodup hnodup fun _ _ => List.not_mem_nil

theorem rewriteKeys_twice (keys : List Key) :
    rewriteKeys operation (rewriteKeys operation keys) = rewriteKeys operation keys :=
  rewriteKeys_same hmoves (rewriteKeys_nodup keys) (rewriteKeys_settled hmoves keys)

theorem rewriteIsland_normalizes :
    Normalizes (rewriteIsland (M := M) operation) (settledIsland operation) := by
  constructor
  · intro island other h
    rw [rewriteIsland, Option.ite_none_left_eq_some] at h
    obtain ⟨hne, h⟩ := h
    obtain rfl := Option.some.inj h
    simp only [settledIsland, Bool.and_eq_true, decide_eq_true_eq, List.all_eq_true, Bool.or_eq_true]
    refine ⟨⟨⟨hne, rewriteKeys_nodup _⟩, rewriteKeys_settled hmoves _⟩, ?_⟩
    by_cases hkind : island.kind = "ordered-list"
    · rw [if_pos hkind]
      exact .inr (bind_settled hmoves _)
    · exact .inl hkind
  · rintro ⟨kind, members, listKey, fields⟩ h
    simp only [settledIsland, Bool.and_eq_true, decide_eq_true_eq, List.all_eq_true,
      Bool.or_eq_true] at h
    obtain ⟨⟨⟨hne, hnodup⟩, hmembers⟩, hlist⟩ := h
    have hsame : rewriteKeys operation members = members := rewriteKeys_same hmoves hnodup hmembers
    have hkey : (if kind = "ordered-list" then listKey.bind (concreteKey operation) else listKey) =
        listKey := by
      split_ifs with hkind
      · exact bind_of_settled hmoves (hlist.resolve_left (not_not.mpr hkind))
      · rfl
    simp only [rewriteIsland, hsame, if_neg hne, hkey]

end Rows

section Keyed
variable {operation} {items out : List (Key × M)} {item : Key × M}

/-- What an item adds to the metadata rewritten so far. -/
def place (operation : Operation) (out : List (Key × M)) (item : Key × M) : List (Key × M) :=
  match concreteKey operation item.1 with
  | none => out
  | some key => if out.any (·.1 = key) then out else out ++ [(key, item.2)]

theorem rewriteKeyed_eq (items : List (Key × M)) : rewriteKeyed operation items =
    items.foldl (place operation)
      (items.filter fun item => concreteKey operation item.1 = some item.1) := rfl

theorem place_cases (operation : Operation) (out : List (Key × M)) (item : Key × M) :
    (place operation out item = out ∧ ∀ key, concreteKey operation item.1 = some key →
      key ∈ out.map Prod.fst) ∨
    ∃ key, concreteKey operation item.1 = some key ∧ key ∉ out.map Prod.fst ∧
      place operation out item = out ++ [(key, item.2)] := by
  cases hkey : concreteKey operation item.1 with
  | none => exact .inl ⟨by simp [place, hkey], by simp⟩
  | some key =>
    by_cases hmem : key ∈ out.map Prod.fst
    · have hany : out.any (·.1 = key) = true := by simpa using hmem
      exact .inl ⟨by simp [place, hkey, hany], fun other hother => Option.some.inj hother ▸ hmem⟩
    · have hany : ¬ out.any (·.1 = key) = true := by simpa using hmem
      exact .inr ⟨key, rfl, hmem, by simp [place, hkey, hany]⟩

/-- The metadata placed so far, out of the items gone through. -/
structure Placed (operation : Operation) (items out : List (Key × M)) : Prop where
  kept : (items.filter fun item => concreteKey operation item.1 = some item.1) <+: out
  from_item : ∀ entry ∈ out, ∃ item ∈ items, concreteKey operation item.1 = some entry.1 ∧
    entry.2 = item.2
  distinct : (items.map Prod.fst).Nodup → (out.map Prod.fst).Nodup

theorem Placed.place (h : Placed operation items out) (hitem : item ∈ items) :
    Placed operation items (place operation out item) := by
  obtain ⟨hsame, -⟩ | ⟨key, hkey, hnew, hplace⟩ := place_cases operation out item
  · rwa [hsame]
  · rw [hplace]
    refine ⟨h.kept.trans (List.prefix_append out _), ?_, fun hdistinct => ?_⟩
    · intro entry hentry
      rcases List.mem_append.mp hentry with hold | hadded
      · exact h.from_item entry hold
      · obtain rfl := List.mem_singleton.mp hadded
        exact ⟨item, hitem, hkey, rfl⟩
    · rw [List.map_append, List.nodup_append]
      refine ⟨h.distinct hdistinct, List.nodup_singleton _, ?_⟩
      rintro other hother _ hadded rfl
      obtain rfl := List.mem_singleton.mp hadded
      exact hnew hother

theorem Placed.foldl (h : Placed operation items out) {rest : List (Key × M)} (hrest : rest ⊆ items) :
    Placed operation items (rest.foldl (Graph.place operation) out) := by
  induction rest generalizing out with
  | nil => exact h
  | cons item rest ih =>
    exact ih (h.place (hrest List.mem_cons_self)) (List.subset_of_cons_subset hrest)

theorem rewriteKeyed_placed (items : List (Key × M)) :
    Placed operation items (rewriteKeyed operation items) := by
  refine Placed.foldl ⟨List.prefix_refl _, ?_, fun h => h.sublist (List.filter_sublist.map _)⟩
    (List.Subset.refl items)
  intro entry hentry
  obtain ⟨hitem, hkey⟩ := List.mem_filter.mp hentry
  exact ⟨entry, hitem, by simpa using hkey, rfl⟩

/-- Every item that is not retired is found under its new key. -/
theorem rewriteKeyed_places (items : List (Key × M)) {key : Key} (hitem : item ∈ items)
    (hkey : concreteKey operation item.1 = some key) :
    key ∈ (rewriteKeyed operation items).map Prod.fst := by
  have hgrows : ∀ (rest out : List (Key × M)) {other : Key}, other ∈ out.map Prod.fst →
      other ∈ (rest.foldl (place operation) out).map Prod.fst := by
    intro rest
    induction rest with
    | nil => exact fun _ _ h => h
    | cons item rest ih =>
      intro out other hother
      apply ih
      obtain ⟨hsame, -⟩ | ⟨key, -, -, hplace⟩ := place_cases operation out item
      · rwa [hsame]
      · rw [hplace, List.map_append]
        exact List.mem_append_left _ hother
  obtain ⟨before, rest, rfl⟩ := List.append_of_mem hitem
  rw [rewriteKeyed_eq, List.foldl_append, List.foldl_cons]
  apply hgrows
  generalize before.foldl (place operation) _ = out
  obtain ⟨hsame, hmem⟩ | ⟨other, hother, -, hplace⟩ := place_cases operation out item
  · rw [hsame]
    exact hmem key hkey
  · obtain rfl := Option.some.inj (hkey.symm.trans hother)
    rw [hplace, List.map_append]
    exact List.mem_append_right _ List.mem_cons_self

theorem rewriteKeyed_same
    (h : ∀ item ∈ items, concreteKey operation item.1 = some item.1) :
    rewriteKeyed operation items = items := by
  have hfold : ∀ rest : List (Key × M), rest ⊆ items →
      rest.foldl (place operation) items = items := by
    intro rest hrest
    induction rest with
    | nil => rfl
    | cons item rest ih =>
      obtain ⟨hitem, hrest⟩ := List.cons_subset.mp hrest
      obtain ⟨hsame, -⟩ | ⟨key, hkey, hnew, -⟩ := place_cases operation items item
      · rw [List.foldl_cons, hsame, ih hrest]
      · obtain rfl := Option.some.inj ((h item hitem).symm.trans hkey)
        exact absurd (List.mem_map_of_mem hitem) hnew
  have hall : items.filter (fun item => concreteKey operation item.1 = some item.1) = items :=
    List.filter_eq_self.mpr fun item hitem => by simpa using h item hitem
  rw [rewriteKeyed_eq, hall, hfold items (List.Subset.refl items)]

end Keyed

section Rewritten
variable {R N : Type}

/-- What becomes of a list of keys. -/
structure KeysRewritten (keys keys' : List Key) : Prop where
  distinct : keys'.Nodup
  ordered : keys'.Sublist (keys.filterMap (concreteKey operation))
  settled : ∀ key ∈ keys', settledKey operation key = true
  kept : ∀ key ∈ keys, settledKey operation key = true → key ∈ keys'
  same : keys.Nodup → (∀ key ∈ keys, settledKey operation key = true) → keys' = keys

/-- What becomes of rows that name keys and carry other fields. -/
structure RowsRewritten (settled : R → Bool) (carried : R → N) (rows rows' : List R) : Prop where
  kept : (rows.filter settled).Sublist rows'
  settled : ∀ row ∈ rows', settled row = true
  carried : (rows'.map carried).Sublist (rows.map carried)

/-- What becomes of metadata under keys. -/
structure KeyedRewritten (items items' : List (Key × M)) : Prop where
  kept : (items.filter fun item => settledKey operation item.1) <+: items'
  settled : ∀ item ∈ items', settledKey operation item.1 = true
  moved : ∀ item ∈ items', item ∈ items ∨ some item.1 = operation.targetKey ∧
    ∃ source, operation.sourceKey = some source ∧ (source, item.2) ∈ items
  arrives : operation.kind = .morph → ∀ item ∈ items, some item.1 = operation.sourceKey →
    ∀ target, operation.targetKey = some target → target ∈ items'.map Prod.fst
  distinct : (items.map Prod.fst).Nodup → (items'.map Prod.fst).Nodup

/-- What becomes of a selection. The mark of a focus stays true where it was. -/
structure SelectionRewritten (state state' : Selection) : Prop where
  selected : Option.Rel (KeysRewritten operation) state.selectedNodeKeys state'.selectedNodeKeys
  settled : state'.focusedNodeKey.all (settledKey operation) = true
  same : state.focusedNodeKey.all (settledKey operation) = true →
    state'.focusedNodeKey = state.focusedNodeKey
  unmarked : state.focusedNodeKeyPresent = none → state'.focusedNodeKeyPresent = none
  marked : ∀ mark, state.focusedNodeKeyPresent = some mark →
    (state.focusedNodeKey = none → mark = false) →
      state'.focusedNodeKeyPresent = some state'.focusedNodeKey.isSome

def PanelsRewritten : List (Panel M) → List (Panel M) → Prop :=
  RowsRewritten (settledPanel operation) Panel.fields

structure MapRewritten (state state' : Map M) : Prop where
  nodes : Option.Rel (KeysRewritten operation) state.topology.nodes state'.topology.nodes
  edges : Option.Rel (RowsRewritten (settledEdge operation) Edge.fields) state.topology.edges
    state'.topology.edges
  outlineRootKeys : Option.Rel (KeysRewritten operation) state.topology.outlineRootKeys
    state'.topology.outlineRootKeys
  islands : Option.Rel (RowsRewritten (settledIsland operation) fun island =>
    (island.kind, island.fields)) state.topology.islands state'.topology.islands
  selection : SelectionRewritten operation state.selection state'.selection
  fields : state'.fields = state.fields

structure NodeViewsRewritten (views views' : NodeViews M) : Prop where
  openViews : Option.Rel (PanelsRewritten operation) views.openViews views'.openViews
  openNodeKeys : Option.Rel (KeysRewritten operation) views.openNodeKeys views'.openNodeKeys
  fields : views'.fields = views.fields

structure ViewFieldsRewritten (state state' : ViewFields M) : Prop where
  selection : SelectionRewritten operation state.selection state'.selection
  views : Option.Rel (NodeViewsRewritten operation) state.views state'.views
  extraPanels : Option.Rel (PanelsRewritten operation) state.extraPanels state'.extraPanels
  fields : state'.fields = state.fields

structure ViewRewritten (state state' : View M) : Prop where
  own : ViewFieldsRewritten operation state.own state'.own
  spatial : Option.Rel (ViewFieldsRewritten operation) state.spatial state'.spatial

structure MetadataRewritten (state state' : Metadata M) : Prop where
  positions : Option.Rel (KeyedRewritten operation) state.positions state'.positions
  sizes : Option.Rel (KeyedRewritten operation) state.sizes state'.sizes
  presentations : Option.Rel (KeyedRewritten operation) state.presentations state'.presentations
  panels : Option.Rel (PanelsRewritten operation) state.panels state'.panels
  extraPanels : Option.Rel (PanelsRewritten operation) state.extraPanels state'.extraPanels
  fields : state'.fields = state.fields

end Rewritten

section Results
variable {operation} {R N : Type}
  (hmoves : operation.kind = .morph → operation.targetKey ≠ operation.sourceKey)

theorem rel_map {f : R → R} {P : R → R → Prop} (h : ∀ r, P r (f r)) (o : Option R) :
    Option.Rel P o (o.map f) := by
  cases o with
  | none => exact .none
  | some r => exact .some (h r)

theorem map_again {f : R → R} (h : ∀ r, f (f r) = f r) (o : Option R) :
    (o.map f).map f = o.map f := by
  rw [Option.map_map]
  exact congrFun (congrArg Option.map (funext h)) o

theorem rowsRewritten {f : R → Option R} {settled : R → Bool} {carried : R → N}
    (h : Normalizes f settled) (hcarried : ∀ r r', f r = some r' → carried r' = carried r)
    (rows : List R) : RowsRewritten settled carried rows (rows.filterMap f) :=
  ⟨h.kept rows, h.all rows, filterMap_carries hcarried rows⟩

include hmoves

theorem keysRewritten (keys : List Key) :
    KeysRewritten operation keys (rewriteKeys operation keys) where
  distinct := rewriteKeys_nodup keys
  ordered := keepFirst_sublist
  settled := rewriteKeys_settled hmoves keys
  kept key hkey hsettled := mem_keepFirst.mpr
    (List.mem_filterMap.mpr ⟨key, hkey, (concreteKey_normalizes hmoves).keeps key hsettled⟩)
  same := rewriteKeys_same hmoves

theorem panelsRewritten (panels : List (Panel M)) :
    PanelsRewritten operation panels (rewritePanels operation panels) := by
  refine rowsRewritten (rewritePanel_normalizes hmoves) (fun panel other h => ?_) panels
  simp only [rewritePanel] at h
  split_ifs at h
  rw [← Option.some.inj h]

theorem edgesRewritten (edges : List (Edge M)) :
    RowsRewritten (settledEdge operation) Edge.fields edges (rewriteEdges operation edges) := by
  refine rowsRewritten (rewriteEdge_normalizes hmoves) (fun edge other h => ?_) edges
  simp only [rewriteEdge] at h
  split at h
  · rw [← Option.some.inj h]
  · cases h

theorem islandsRewritten (islands : List (Island M)) :
    RowsRewritten (settledIsland operation) (fun island => (island.kind, island.fields)) islands
      (rewriteIslands operation islands) := by
  refine rowsRewritten (rewriteIsland_normalizes hmoves) (fun island other h => ?_) islands
  rw [rewriteIsland, Option.ite_none_left_eq_some] at h
  rw [← Option.some.inj h.2]

omit hmoves in
/-- The source is the one key that a rewriting moves. -/
theorem concreteKey_eq_some {key other : Key} (h : concreteKey operation key = some other) :
    key = other ∨ some other = operation.targetKey ∧ operation.sourceKey = some key := by
  simp only [concreteKey] at h
  split_ifs at h with hgone hsource
  · exact .inr ⟨h.symm, hsource.2.symm⟩
  · exact .inl (Option.some.inj h)

theorem concreteKey_same {key : Key} :
    concreteKey operation key = some key ↔ settledKey operation key = true :=
  ⟨(concreteKey_normalizes hmoves).reaches key key, (concreteKey_normalizes hmoves).keeps key⟩

theorem keyedRewritten (items : List (Key × M)) :
    KeyedRewritten operation items (rewriteKeyed operation items) := by
  have hplaced : Placed operation items (rewriteKeyed operation items) := rewriteKeyed_placed items
  refine ⟨?_, fun item hitem => ?_, fun item hitem => ?_, ?_, hplaced.distinct⟩
  · have hkept := hplaced.kept
    simp only [concreteKey_same hmoves, Bool.decide_eq_true] at hkept
    exact hkept
  · obtain ⟨before, -, hkey, -⟩ := hplaced.from_item item hitem
    exact (concreteKey_normalizes hmoves).reaches _ _ hkey
  · obtain ⟨before, hbefore, hkey, hvalue⟩ := hplaced.from_item item hitem
    rcases concreteKey_eq_some hkey with hsame | ⟨htarget, hsource⟩
    · left
      rwa [show item = before from Prod.ext hsame.symm hvalue]
    · exact .inr ⟨htarget, before.1, hsource, hvalue ▸ hbefore⟩
  · intro hkind item hitem hsource target htarget
    have hkey : concreteKey operation item.1 = some target := by
      simp [concreteKey, hkind, hsource, htarget]
    exact rewriteKeyed_places items hitem hkey

theorem rewritePanels_twice (panels : List (Panel M)) :
    rewritePanels operation (rewritePanels operation panels) = rewritePanels operation panels :=
  (rewritePanel_normalizes hmoves).again panels

theorem rewriteEdges_twice (edges : List (Edge M)) :
    rewriteEdges operation (rewriteEdges operation edges) = rewriteEdges operation edges :=
  (rewriteEdge_normalizes hmoves).again edges

theorem rewriteIslands_twice (islands : List (Island M)) :
    rewriteIslands operation (rewriteIslands operation islands) =
      rewriteIslands operation islands :=
  (rewriteIsland_normalizes hmoves).again islands

theorem rewriteKeyed_twice (items : List (Key × M)) :
    rewriteKeyed operation (rewriteKeyed operation items) = rewriteKeyed operation items :=
  rewriteKeyed_same fun item hitem =>
    (concreteKey_same hmoves).mpr ((keyedRewritten hmoves items).settled item hitem)

theorem selectionRewritten (state : Selection) :
    SelectionRewritten operation state (rewriteSelection operation state) where
  selected := rel_map (keysRewritten hmoves) _
  settled := bind_settled hmoves _
  same := bind_of_settled hmoves
  unmarked hmark := by
    cases hkey : state.focusedNodeKey <;> simp [rewriteSelection, hkey, hmark]
  marked mark hmark htrue := by
    cases hkey : state.focusedNodeKey with
    | none => simp [rewriteSelection, hkey, hmark, htrue hkey]
    | some key => simp [rewriteSelection, hkey, hmark]

theorem rewriteSelection_twice (state : Selection) :
    rewriteSelection operation (rewriteSelection operation state) =
      rewriteSelection operation state := by
  have hkeys := map_again (rewriteKeys_twice hmoves) state.selectedNodeKeys
  have hfocus := bind_of_settled hmoves (bind_settled hmoves state.focusedNodeKey)
  cases hkey : state.focusedNodeKey with
  | none => simp [rewriteSelection, hkeys, hkey]
  | some key =>
    rw [hkey, Option.bind_some] at hfocus
    cases hmoved : concreteKey operation key with
    | none => simp [rewriteSelection, hkeys, hkey, hmoved]
    | some other =>
      rw [hmoved, Option.bind_some] at hfocus
      simp [rewriteSelection, hkeys, hkey, hmoved, hfocus, Function.comp_def]

theorem mapRewritten (state : Map M) : MapRewritten operation state (rewriteMap operation state) where
  nodes := rel_map (keysRewritten hmoves) _
  edges := rel_map (edgesRewritten hmoves) _
  outlineRootKeys := rel_map (keysRewritten hmoves) _
  islands := rel_map (islandsRewritten hmoves) _
  selection := selectionRewritten hmoves _
  fields := rfl

theorem rewriteMap_twice (state : Map M) :
    rewriteMap operation (rewriteMap operation state) = rewriteMap operation state := by
  simp only [rewriteMap, rewriteTopology, rewriteSelection_twice hmoves,
    map_again (rewriteKeys_twice hmoves), map_again (rewriteEdges_twice hmoves),
    map_again (rewriteIslands_twice hmoves)]

theorem viewFieldsRewritten (state : ViewFields M) :
    ViewFieldsRewritten operation state (rewriteViewFields operation state) where
  selection := selectionRewritten hmoves _
  views := rel_map (fun _ => ⟨rel_map (panelsRewritten hmoves) _,
    rel_map (keysRewritten hmoves) _, rfl⟩) _
  extraPanels := rel_map (panelsRewritten hmoves) _
  fields := rfl

theorem rewriteViewFields_twice (state : ViewFields M) :
    rewriteViewFields operation (rewriteViewFields operation state) =
      rewriteViewFields operation state := by
  have hviews : ∀ views : NodeViews M, rewriteNodeViews operation (rewriteNodeViews operation views) =
      rewriteNodeViews operation views := fun views => by
    simp only [rewriteNodeViews, map_again (rewritePanels_twice hmoves),
      map_again (rewriteKeys_twice hmoves)]
  simp only [rewriteViewFields, rewriteSelection_twice hmoves,
    map_again (rewritePanels_twice hmoves), map_again hviews]

theorem metadataRewritten (metadata : Metadata M) :
    MetadataRewritten operation metadata (rewriteMetadata operation metadata) where
  positions := rel_map (keyedRewritten hmoves) _
  sizes := rel_map (keyedRewritten hmoves) _
  presentations := rel_map (keyedRewritten hmoves) _
  panels := rel_map (panelsRewritten hmoves) _
  extraPanels := rel_map (panelsRewritten hmoves) _
  fields := rfl

theorem rewriteMetadata_twice (metadata : Metadata M) :
    rewriteMetadata operation (rewriteMetadata operation metadata) =
      rewriteMetadata operation metadata := by
  simp only [rewriteMetadata, map_again (rewritePanels_twice hmoves),
    map_again (rewriteKeyed_twice hmoves)]

end Results

/-- A morph of a string that is on a map together with its replacement. -/
def replacing : Operation where
  kind := .morph
  sourceKey := some "string-entity:s"
  targetKey := some "code-entity:c"
  retiring := ["string-entity:s"]
  updatedIdentityKeys := []
  replacement := none
  referencePlan := ⟨[], []⟩
  timestamp := 0

def crowded : Map (List Nat) where
  topology := ⟨some ["string-entity:s", "a", "code-entity:c"],
    some [⟨"string-entity:s", "a", []⟩, ⟨"a", "code-entity:c", []⟩], none, none⟩
  selection := ⟨some ["string-entity:s"], some "string-entity:s", none⟩
  fields := []

end Space2.Graph
