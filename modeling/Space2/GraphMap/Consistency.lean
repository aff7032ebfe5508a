import Mathlib.Data.List.Nodup
import Space2.GraphMap.Commands

/-!
# Consistent states

The list of edges and the table of their keys name the same edges, edges join stored
nodes, and the derived keys are those of the edges that come from a link or a workflow.
Each change of the state keeps this, as long as the edge it places is not listed under
another key and carries the options its key was computed from.
-/
namespace Space2.GraphMap
open ReferenceLifecycle (Key)

variable {C J : Type}

structure Consistent (s : State C J) : Prop where
  nodesNodup : (s.nodes.map Node.key).Nodup
  edgesNodup : s.edges.Nodup
  allocated : ∀ ref ∈ s.edges, ref < s.nextRef
  mapped : ∀ ref ∈ s.edges, s.edgeMap (s.keyOf ref) = some ref
  listed : ∀ key ref, s.edgeMap key = some ref → ref ∈ s.edges ∧ s.keyOf ref = key
  stored : ∀ ref ∈ s.edges, (s.heap ref).source ∈ s.nodes ∧ (s.heap ref).target ∈ s.nodes
  derived : ∀ key, s.derivedEdgeKeys key = true ↔
    ∃ ref ∈ s.edges, s.keyOf ref = key ∧ (derivedEdgeId (s.heap ref) none).isSome = true

/-- Selected keys and outline roots are loaded, and no root is listed twice. -/
structure Selected (s : State C J) : Prop where
  selected : ∀ key ∈ s.selectedNodeKeys, s.loaded key = true
  rootsNodup : s.outlineRootKeys.Nodup
  roots : ∀ key ∈ s.outlineRootKeys, s.loaded key = true

/-! ## Lookups -/

theorem loaded_iff {s : State C J} {key : Key} :
    s.loaded key = true ↔ key ∈ s.nodes.map Node.key := by
  simp [State.loaded, State.lookup, List.find?_isSome]

theorem lookup_mem {s : State C J} {key : Key} {node : Node} (h : s.lookup key = some node) :
    node ∈ s.nodes ∧ node.key = key := by
  refine ⟨List.mem_of_find?_eq_some h, ?_⟩
  simpa using List.find?_some h

theorem Consistent.lookup_eq {s : State C J} (h : Consistent s) {node : Node}
    (hnode : node ∈ s.nodes) : s.lookup node.key = some node := by
  cases hfound : s.lookup node.key with
  | none =>
    have hnone : node.key ≠ node.key := by simpa using List.find?_eq_none.1 hfound node hnode
    exact absurd rfl hnone
  | some other =>
    obtain ⟨hother, hkey⟩ := lookup_mem hfound
    rw [List.inj_on_of_nodup_map h.nodesNodup hother hnode hkey]

theorem Consistent.eq_of_keyOf {s : State C J} (h : Consistent s) {ref other : Nat}
    (href : ref ∈ s.edges) (hother : other ∈ s.edges) (hkey : s.keyOf ref = s.keyOf other) :
    ref = other := by
  have hmapped := h.mapped ref href
  rw [hkey, h.mapped other hother] at hmapped
  exact (Option.some.inj hmapped).symm

/-! ## Changes that leave nodes and edges alone -/

/-- The parts of the state that consistency is about. -/
structure SameGraph (s s' : State C J) : Prop where
  nodes : s'.nodes = s.nodes
  heap : ∀ ref ∈ s.edges, s'.heap ref = s.heap ref
  nextRef : s.nextRef ≤ s'.nextRef
  edges : s'.edges = s.edges
  edgeMap : s'.edgeMap = s.edgeMap
  derivedEdgeKeys : s'.derivedEdgeKeys = s.derivedEdgeKeys

theorem Consistent.same {s s' : State C J} (h : Consistent s) (hsame : SameGraph s s') :
    Consistent s' := by
  have hkey : ∀ ref ∈ s.edges, s'.keyOf ref = s.keyOf ref := fun ref href => by
    rw [State.keyOf, hsame.heap ref href, State.keyOf]
  refine ⟨?_, ?_, ?_, ?_, ?_, ?_, ?_⟩
  · rw [hsame.nodes]
    exact h.nodesNodup
  · rw [hsame.edges]
    exact h.edgesNodup
  · rw [hsame.edges]
    exact fun ref href => Nat.lt_of_lt_of_le (h.allocated ref href) hsame.nextRef
  · rw [hsame.edges, hsame.edgeMap]
    exact fun ref href => by rw [hkey ref href, h.mapped ref href]
  · rw [hsame.edges, hsame.edgeMap]
    intro key ref href
    obtain ⟨hlisted, hsamekey⟩ := h.listed key ref href
    exact ⟨hlisted, by rw [hkey ref hlisted, hsamekey]⟩
  · rw [hsame.edges, hsame.nodes]
    exact fun ref href => by rw [hsame.heap ref href]; exact h.stored ref href
  · rw [hsame.edges, hsame.derivedEdgeKeys]
    intro key
    rw [h.derived key]
    refine exists_congr fun ref => and_congr_right fun href => ?_
    rw [hkey ref href, hsame.heap ref href]

theorem SameGraph.of_eq {s s' : State C J} (hnodes : s'.nodes = s.nodes) (hheap : s'.heap = s.heap)
    (hnextRef : s'.nextRef = s.nextRef) (hedges : s'.edges = s.edges)
    (hedgeMap : s'.edgeMap = s.edgeMap) (hderived : s'.derivedEdgeKeys = s.derivedEdgeKeys) :
    SameGraph s s' :=
  ⟨hnodes, fun ref _ => by rw [hheap], Nat.le_of_eq hnextRef.symm, hedges, hedgeMap, hderived⟩

/-- An object that is not listed may be changed. -/
theorem sameGraph_setEdge {s : State C J} {ref : Nat} (href : ref ∉ s.edges) (edge : Edge C) :
    SameGraph s (s.setEdge ref edge) where
  nodes := rfl
  heap other hother := by
    have hne : other ≠ ref := fun h => href (h ▸ hother)
    simp [State.setEdge, hne]
  nextRef := Nat.le_refl _
  edges := rfl
  edgeMap := rfl
  derivedEdgeKeys := rfl

theorem Selected.of_loaded {s s' : State C J} (h : Selected s)
    (hloaded : ∀ key, s.loaded key = true → s'.loaded key = true)
    (hselected : s'.selectedNodeKeys = s.selectedNodeKeys)
    (hroots : s'.outlineRootKeys = s.outlineRootKeys) : Selected s' where
  selected key hkey := hloaded key (h.selected key (hselected ▸ hkey))
  rootsNodup := hroots ▸ h.rootsNodup
  roots key hkey := hloaded key (h.roots key (hroots ▸ hkey))

theorem normalizeOutlineRootKeys_spec (s : State C J) (keys : List Key) :
    (s.normalizeOutlineRootKeys keys).Nodup ∧
      ∀ key ∈ s.normalizeOutlineRootKeys keys, s.loaded key = true := by
  suffices hfrom : ∀ (rest result : List Key), result.Nodup →
      (∀ key ∈ result, s.loaded key = true) →
      (rest.foldl (fun result key =>
        if s.loaded key = true ∧ key ∉ result then result ++ [key] else result) result).Nodup ∧
      ∀ key ∈ rest.foldl (fun result key =>
        if s.loaded key = true ∧ key ∉ result then result ++ [key] else result) result,
        s.loaded key = true from
    hfrom keys [] List.nodup_nil (by simp)
  intro rest
  induction rest with
  | nil => exact fun result hnodup hloaded => ⟨hnodup, hloaded⟩
  | cons key rest ih =>
    intro result hnodup hloaded
    rw [List.foldl_cons]
    split_ifs with hkey
    · apply ih
      · exact List.nodup_append.2 ⟨hnodup, List.nodup_singleton key, fun a ha b hb hab =>
          hkey.2 (by rw [List.mem_singleton.1 hb] at hab; exact hab ▸ ha)⟩
      · intro other hother
        rcases List.mem_append.1 hother with hother | hother
        · exact hloaded other hother
        · rw [List.mem_singleton.1 hother]
          exact hkey.1
    · exact ih result hnodup hloaded

/-! ## Nodes -/

theorem mem_replaceNode {s : State C J} {other : Node} (existing node : Node)
    (hother : other ∈ s.nodes) : (if other.key = node.key then node else other) ∈
      (s.replaceNode existing node).nodes :=
  List.mem_map.2 ⟨other, hother, rfl⟩

theorem keys_replaceNode (s : State C J) (existing node : Node) :
    (s.replaceNode existing node).nodes.map Node.key = s.nodes.map Node.key := by
  rw [State.replaceNode, List.map_map]
  refine List.map_congr_left fun other _ => ?_
  rw [Function.comp_apply]
  split_ifs with hkey
  · exact hkey.symm
  · rfl

theorem loaded_replaceNode (s : State C J) (existing node : Node) (key : Key) :
    (s.replaceNode existing node).loaded key = s.loaded key := by
  rw [Bool.eq_iff_iff, loaded_iff, loaded_iff, keys_replaceNode]

theorem keyOf_replaceNode {s : State C J} {existing node : Node} (hkey : existing.key = node.key)
    (ref : Nat) : (s.replaceNode existing node).keyOf ref = s.keyOf ref := by
  have hretarget : ∀ other : Node,
      (if other = existing then node else other).key = other.key := by
    intro other
    split_ifs with hother
    · rw [hother, hkey]
    · rfl
  simp only [State.keyOf, State.replaceNode]
  split_ifs with href
  · simp [edgeKey, Edge.retarget, derivedEdgeId, hretarget]
  · rfl

theorem derivedEdgeId_replaceNode (s : State C J) (existing node : Node) (ref : Nat) :
    derivedEdgeId ((s.replaceNode existing node).heap ref) none =
      derivedEdgeId (s.heap ref) none := by
  simp only [State.replaceNode]
  split_ifs <;> rfl

theorem Consistent.replaceNode {s : State C J} (h : Consistent s) {existing node : Node}
    (hexisting : existing ∈ s.nodes) (hkey : existing.key = node.key) :
    Consistent (s.replaceNode existing node) where
  nodesNodup := by
    rw [keys_replaceNode]
    exact h.nodesNodup
  edgesNodup := h.edgesNodup
  allocated := h.allocated
  mapped ref href := by
    rw [keyOf_replaceNode hkey]
    exact h.mapped ref href
  listed key ref href := by
    rw [keyOf_replaceNode hkey]
    exact h.listed key ref href
  stored ref href := by
    have hretarget : ∀ other ∈ s.nodes,
        (if other = existing then node else other) ∈ (s.replaceNode existing node).nodes := by
      intro other hother
      have hsame : other.key = node.key ↔ other = existing := by
        rw [← hkey]
        exact ⟨List.inj_on_of_nodup_map h.nodesNodup hother hexisting, fun h => by rw [h]⟩
      rw [← if_congr hsame rfl rfl]
      exact mem_replaceNode existing node hother
    have hheap : (s.replaceNode existing node).heap ref = (s.heap ref).retarget existing node :=
      if_pos href
    rw [hheap]
    exact ⟨hretarget _ (h.stored ref href).1, hretarget _ (h.stored ref href).2⟩
  derived key := by
    rw [show (s.replaceNode existing node).derivedEdgeKeys = s.derivedEdgeKeys from rfl, h.derived]
    refine exists_congr fun ref => and_congr_right fun _ => ?_
    rw [keyOf_replaceNode hkey, derivedEdgeId_replaceNode]

theorem Consistent.storeNode {s : State C J} (h : Consistent s) {node : Node}
    (hnew : s.lookup node.key = none) :
    Consistent ({ s with nodes := s.nodes ++ [node] } : State C J) where
  nodesNodup := by
    rw [List.map_append, List.nodup_append]
    refine ⟨h.nodesNodup, List.nodup_singleton _, ?_⟩
    rintro key hkey other hother rfl
    obtain ⟨stored, hstored, hsame⟩ := List.mem_map.1 hkey
    rw [List.map_singleton, List.mem_singleton] at hother
    rw [← hother, ← hsame, h.lookup_eq hstored] at hnew
    cases hnew
  edgesNodup := h.edgesNodup
  allocated := h.allocated
  mapped := h.mapped
  listed := h.listed
  stored ref href :=
    ⟨List.mem_append_left _ (h.stored ref href).1, List.mem_append_left _ (h.stored ref href).2⟩
  derived := h.derived

/-! ## Taking edges away -/

theorem Consistent.forgetEdges {s : State C J} (h : Consistent s) (removed : Nat → Bool) :
    Consistent (s.forgetEdges removed) := by
  have hmem : ∀ ref, ref ∈ (s.forgetEdges removed).edges ↔ ref ∈ s.edges ∧ removed ref = false := by
    intro ref
    simp [State.forgetEdges, List.mem_filter]
  have hkept : ∀ ref ∈ s.edges, removed ref = false →
      s.keyOf ref ∉ (s.edges.filter removed).map s.keyOf := by
    intro ref href hkeep hkey
    obtain ⟨other, hother, hsame⟩ := List.mem_map.1 hkey
    obtain ⟨hlisted, hremoved⟩ := List.mem_filter.1 hother
    rw [h.eq_of_keyOf hlisted href hsame, hkeep] at hremoved
    cases hremoved
  have hgone : ∀ ref ∈ s.edges, s.keyOf ref ∉ (s.edges.filter removed).map s.keyOf →
      removed ref = false := by
    intro ref href hkey
    by_contra hremoved
    exact hkey (List.mem_map.2 ⟨ref, List.mem_filter.2 ⟨href, by simpa using hremoved⟩, rfl⟩)
  refine ⟨h.nodesNodup, h.edgesNodup.filter _, ?_, ?_, ?_, ?_, ?_⟩
  · exact fun ref href => h.allocated ref ((hmem ref).1 href).1
  · intro ref href
    obtain ⟨hlisted, hkeep⟩ := (hmem ref).1 href
    exact (if_neg (hkept ref hlisted hkeep)).trans (h.mapped ref hlisted)
  · intro key ref href
    have hkey : key ∉ (s.edges.filter removed).map s.keyOf := by
      intro hkey
      rw [show (s.forgetEdges removed).edgeMap key = none from if_pos hkey] at href
      cases href
    rw [show (s.forgetEdges removed).edgeMap key = s.edgeMap key from if_neg hkey] at href
    obtain ⟨hlisted, hsame⟩ := h.listed key ref href
    exact ⟨(hmem ref).2 ⟨hlisted, hgone ref hlisted (hsame ▸ hkey)⟩, hsame⟩
  · exact fun ref href => h.stored ref ((hmem ref).1 href).1
  · intro key
    by_cases hkey : key ∈ (s.edges.filter removed).map s.keyOf
    · rw [show (s.forgetEdges removed).derivedEdgeKeys key = false from if_pos hkey]
      refine ⟨fun hfalse => absurd hfalse Bool.false_ne_true, ?_⟩
      rintro ⟨ref, href, hsame, -⟩
      obtain ⟨hlisted, hkeep⟩ := (hmem ref).1 href
      exact absurd (show s.keyOf ref ∈ _ from hsame ▸ hkey) (hkept ref hlisted hkeep)
    · rw [show (s.forgetEdges removed).derivedEdgeKeys key = s.derivedEdgeKeys key from if_neg hkey,
        h.derived]
      constructor
      · rintro ⟨ref, href, hsame, hderived⟩
        exact ⟨ref, (hmem ref).2 ⟨href, hgone ref href (hsame ▸ hkey)⟩, hsame, hderived⟩
      · rintro ⟨ref, href, hsame, hderived⟩
        exact ⟨ref, ((hmem ref).1 href).1, hsame, hderived⟩

theorem Consistent.not_derived {s : State C J} (h : Consistent s) {key : String}
    (hkey : s.edgeMap key = none) : s.derivedEdgeKeys key = false := by
  by_contra hderived
  obtain ⟨ref, href, rfl, -⟩ := (h.derived key).1 (by simpa using hderived)
  rw [h.mapped ref href] at hkey
  cases hkey

/-- Taking one edge off the list with its key. -/
theorem Consistent.forgetOne {s : State C J} (h : Consistent s) {before after : List Nat} {ref : Nat}
    (hedges : s.edges = before ++ ref :: after) :
    Consistent ({ s.forget (s.keyOf ref) with edges := before ++ after } : State C J) := by
  have hnodup := h.edgesNodup
  rw [hedges, List.nodup_middle, List.nodup_cons] at hnodup
  have hlisted : ref ∈ s.edges := by
    rw [hedges]
    exact List.mem_append_right _ List.mem_cons_self
  have hfilter : before ++ after = s.edges.filter fun other => !decide (other = ref) := by
    have hkept : ∀ other ∈ before ++ after, (!decide (other = ref)) = true := by
      intro other hother
      simpa using fun hsame : other = ref => hnodup.1 (hsame ▸ hother)
    rw [hedges, List.filter_append, List.filter_cons_of_neg (by simp), ← List.filter_append,
      List.filter_eq_self.2 hkept]
  have hkeys : ∀ key, key ∈ (s.edges.filter (decide <| · = ref)).map s.keyOf ↔
      key = s.keyOf ref := by
    intro key
    simp only [List.mem_map, List.mem_filter, decide_eq_true_eq]
    exact ⟨fun ⟨other, ⟨_, hother⟩, hkey⟩ => by rw [← hkey, hother],
      fun hkey => ⟨ref, ⟨hlisted, rfl⟩, hkey.symm⟩⟩
  refine (h.forgetEdges (decide <| · = ref)).same
    ⟨rfl, fun _ _ => rfl, Nat.le_refl _, hfilter, ?_, ?_⟩
  · funext key
    exact if_congr (hkeys key).symm rfl rfl
  · funext key
    exact if_congr (hkeys key).symm rfl rfl

theorem Consistent.detach {s : State C J} (h : Consistent s) {ref : Nat}
    (href : ref ∈ s.edges ∨ s.edgeMap (s.keyOf ref) = none) : Consistent (s.detach ref) := by
  by_cases hlisted : ref ∈ s.edges
  · obtain ⟨before, after, hedges⟩ := List.append_of_mem hlisted
    refine (h.forgetOne hedges).same ⟨rfl, fun _ _ => rfl, Nat.le_refl _, ?_, rfl, rfl⟩
    have hnodup := h.edgesNodup
    rw [hedges, List.nodup_middle, List.nodup_cons] at hnodup
    have hkept : ∀ other ∈ before ++ after, decide (other ≠ ref) = true := by
      intro other hother
      simpa using fun hsame : other = ref => hnodup.1 (hsame ▸ hother)
    show s.edges.filter (fun other => decide (other ≠ ref)) = before ++ after
    rw [hedges, List.filter_append, List.filter_cons_of_neg (by simp), ← List.filter_append,
      List.filter_eq_self.2 hkept]
  · have hnone := href.resolve_left hlisted
    refine h.same ⟨rfl, fun _ _ => rfl, Nat.le_refl _, ?_, ?_, ?_⟩
    · exact List.filter_eq_self.2 fun other hother => by
        simpa using fun hsame : other = ref => hlisted (hsame ▸ hother)
    · funext key
      show (if key = s.keyOf ref then none else s.edgeMap key) = s.edgeMap key
      split_ifs with hkey
      · rw [hkey, hnone]
      · rfl
    · funext key
      show (if key = s.keyOf ref then false else s.derivedEdgeKeys key) = s.derivedEdgeKeys key
      split_ifs with hkey
      · rw [hkey, h.not_derived hnone]
      · rfl

theorem Consistent.sweep {s : State C J} (h : Consistent s) (condition : State C J → Nat → Bool) :
    Consistent (s.sweep condition) := by
  suffices hfrom : ∀ after before : List Nat, s.edges = before ++ after →
      let swept := after.foldr (fun ref swept =>
        if condition swept.1 ref = true then (swept.1.forget (swept.1.keyOf ref), swept.2)
        else (swept.1, ref :: swept.2)) (s, [])
      Consistent ({ swept.1 with edges := before ++ swept.2 } : State C J) from
    hfrom s.edges [] rfl
  intro after
  induction after with
  | nil =>
    intro before hedges
    exact h.same ⟨rfl, fun _ _ => rfl, Nat.le_refl _, hedges.symm, rfl, rfl⟩
  | cons ref after ih =>
    intro before hedges
    have hrest := ih (before ++ [ref]) (by simpa using hedges)
    simp only [List.append_assoc, List.singleton_append, List.foldr_cons] at hrest ⊢
    split_ifs
    · exact hrest.forgetOne rfl
    · exact hrest

/-! ## Placing an edge -/

/-- An edge takes the place of the one under its new key, or a new place. -/
theorem Consistent.relist {s s' : State C J} (h : Consistent s) (ref : Nat) (key : String)
    (hnodes : s'.nodes = s.nodes) (hnext : s.nextRef ≤ s'.nextRef) (href : ref < s'.nextRef)
    (hmem : ∀ other, other ∈ s'.edges ↔
      other = ref ∨ other ∈ s.edges ∧ s.edgeMap key ≠ some other)
    (hnodup : s'.edges.Nodup)
    (hheap : ∀ other ∈ s.edges, other ≠ ref → s'.heap other = s.heap other)
    (hplace : ref ∈ s.edges → s.edgeMap key = some ref) (hkey : s'.keyOf ref = key)
    (hstored : (s'.heap ref).source ∈ s.nodes ∧ (s'.heap ref).target ∈ s.nodes)
    (hmap : s'.edgeMap = fun other => if other = key then some ref else s.edgeMap other)
    (hderived : s'.derivedEdgeKeys = fun other =>
      if other = key then (derivedEdgeId (s'.heap ref) none).isSome else s.derivedEdgeKeys other) :
    Consistent s' := by
  have hother : ∀ other ∈ s.edges, s.edgeMap key ≠ some other → other ≠ ref := by
    rintro other hlisted hne rfl
    exact hne (hplace hlisted)
  have hsame : ∀ other ∈ s.edges, s.edgeMap key ≠ some other → s'.keyOf other = s.keyOf other :=
    fun other hlisted hne => by
      rw [State.keyOf, hheap other hlisted (hother other hlisted hne), State.keyOf]
  have hapart : ∀ other ∈ s.edges, s.keyOf other ≠ key ↔ s.edgeMap key ≠ some other := by
    intro other hlisted
    refine not_congr ⟨fun hsamekey => ?_, fun hfound => (h.listed key other hfound).2⟩
    rw [← hsamekey]
    exact h.mapped other hlisted
  refine ⟨by rw [hnodes]; exact h.nodesNodup, hnodup, ?_, ?_, ?_, ?_, ?_⟩
  · intro other hlisted
    rcases (hmem other).1 hlisted with rfl | ⟨hold, -⟩
    · exact href
    · exact Nat.lt_of_lt_of_le (h.allocated other hold) hnext
  · intro other hlisted
    rw [hmap]
    rcases (hmem other).1 hlisted with rfl | ⟨hold, hne⟩
    · exact if_pos hkey
    · rw [hsame other hold hne]
      exact (if_neg ((hapart other hold).2 hne)).trans (h.mapped other hold)
  · intro found other hfound
    simp only [hmap] at hfound
    split_ifs at hfound with hfoundkey
    · obtain rfl := Option.some.inj hfound
      exact ⟨(hmem ref).2 (.inl rfl), hkey.trans hfoundkey.symm⟩
    · obtain ⟨hold, rfl⟩ := h.listed found other hfound
      have hne := (hapart other hold).1 hfoundkey
      exact ⟨(hmem other).2 (.inr ⟨hold, hne⟩), hsame other hold hne⟩
  · intro other hlisted
    rw [hnodes]
    rcases (hmem other).1 hlisted with rfl | ⟨hold, hne⟩
    · exact hstored
    · rw [hheap other hold (hother other hold hne)]
      exact h.stored other hold
  · intro found
    simp only [hderived]
    split_ifs with hfoundkey
    · constructor
      · exact fun hid => ⟨ref, (hmem ref).2 (.inl rfl), hkey.trans hfoundkey.symm, hid⟩
      · rintro ⟨other, hlisted, hotherkey, hid⟩
        rcases (hmem other).1 hlisted with rfl | ⟨hold, hne⟩
        · exact hid
        · rw [hsame other hold hne, hfoundkey] at hotherkey
          exact absurd hotherkey ((hapart other hold).2 hne)
    · rw [h.derived]
      constructor
      · rintro ⟨other, hold, rfl, hid⟩
        have hne := (hapart other hold).1 hfoundkey
        refine ⟨other, (hmem other).2 (.inr ⟨hold, hne⟩), hsame other hold hne, ?_⟩
        rwa [hheap other hold (hother other hold hne)]
      · rintro ⟨other, hlisted, rfl, hid⟩
        rcases (hmem other).1 hlisted with rfl | ⟨hold, hne⟩
        · exact absurd hkey hfoundkey
        · refine ⟨other, hold, (hsame other hold hne).symm, ?_⟩
          rwa [← hheap other hold (hother other hold hne)]

/-- The edge is not listed, or listed under the key it is placed at, and the options that it
will carry are those its key is computed from. -/
def Placeable (s : State C J) (ref : Nat) (options : Option EdgeOptions) : Prop :=
  (ref ∈ s.edges → s.edgeMap (edgeKey (s.heap ref) options) = some ref) ∧
    (EdgeOptions.id (s.heap ref).opts = none ∨ (EdgeOptions.id options).isSome = true ∨
      options = none ∧ s.edgeMap (edgeKey (s.heap ref) options) = none)

theorem derivedEdgeId_replaced {edge : Edge C} {options : Option EdgeOptions}
    (h : EdgeOptions.id edge.opts = none ∨ (EdgeOptions.id options).isSome = true) :
    derivedEdgeId { edge with opts := options } none = derivedEdgeId edge options := by
  have hnone : EdgeOptions.id none = none := rfl
  rw [derivedEdgeId, derivedEdgeId, hnone, Option.none_or]
  rcases h with h | h
  · rw [h, Option.or_none]
  · obtain ⟨id, hid⟩ := Option.isSome_iff_exists.1 h
    rw [hid, Option.some_or]

theorem edgeKey_replaced {edge : Edge C} {options : Option EdgeOptions}
    (h : EdgeOptions.id edge.opts = none ∨ (EdgeOptions.id options).isSome = true) :
    edgeKey { edge with opts := options } none = edgeKey edge options := by
  rw [edgeKey, derivedEdgeId_replaced h, edgeKey]

theorem heap_replaceEdge (s : State C J) (existing ref : Nat) (options : Option EdgeOptions) :
    (s.replaceEdge existing ref options).heap ref = { s.heap ref with opts := options } :=
  if_pos rfl

theorem heap_insertEdge (s : State C J) (ref : Nat) (options : Option EdgeOptions) :
    (s.insertEdge ref options).heap ref =
      if options.isSome then { s.heap ref with opts := options } else s.heap ref := if_pos rfl

theorem Consistent.replaceEdge {s : State C J} (h : Consistent s) {ref existing : Nat}
    {options : Option EdgeOptions} (href : ref < s.nextRef)
    (hstored : (s.heap ref).source ∈ s.nodes ∧ (s.heap ref).target ∈ s.nodes)
    (hplace : Placeable s ref options)
    (hexisting : s.edgeMap (edgeKey (s.heap ref) options) = some existing) :
    Consistent (s.replaceEdge existing ref options) := by
  have hlisted := (h.listed _ _ hexisting).1
  have hids : EdgeOptions.id (s.heap ref).opts = none ∨ (EdgeOptions.id options).isSome = true := by
    rcases hplace.2 with hown | hgiven | ⟨-, hfree⟩
    · exact .inl hown
    · exact .inr hgiven
    · rw [hexisting] at hfree
      cases hfree
  have hsame : ref ∈ s.edges → ref = existing := fun hmem =>
    Option.some.inj ((hplace.1 hmem).symm.trans hexisting)
  refine h.relist ref (edgeKey (s.heap ref) options) rfl (Nat.le_refl _) href
    ?_ ?_ (fun other _ hne => if_neg hne) hplace.1 ?_ ?_ rfl ?_
  · intro other
    simp only [State.replaceEdge, List.mem_map, hexisting, ne_eq, Option.some.injEq]
    constructor
    · rintro ⟨old, hold, hnew⟩
      split_ifs at hnew with heq
      · exact .inl hnew.symm
      · subst hnew
        exact .inr ⟨hold, fun hne => heq hne.symm⟩
    · rintro (rfl | ⟨hold, hne⟩)
      · exact ⟨existing, hlisted, if_pos rfl⟩
      · exact ⟨other, hold, if_neg fun heq => hne heq.symm⟩
  · refine List.Nodup.map_on ?_ h.edgesNodup
    intro first hfirst second hsecond heq
    split_ifs at heq with hfirsteq hsecondeq hsecondeq
    · rw [hfirsteq, hsecondeq]
    · subst heq
      exact hfirsteq.trans (hsame hsecond).symm
    · subst heq
      exact (hsame hfirst).trans hsecondeq.symm
    · exact heq
  · rw [State.keyOf, heap_replaceEdge, edgeKey_replaced hids]
  · rw [heap_replaceEdge]
    exact hstored
  · rw [heap_replaceEdge, derivedEdgeId_replaced hids]
    rfl

theorem Consistent.insertEdge {s : State C J} (h : Consistent s) {ref : Nat}
    {options : Option EdgeOptions} (href : ref < s.nextRef)
    (hstored : (s.heap ref).source ∈ s.nodes ∧ (s.heap ref).target ∈ s.nodes)
    (hplace : Placeable s ref options)
    (hfree : s.edgeMap (edgeKey (s.heap ref) options) = none) :
    Consistent (s.insertEdge ref options) := by
  have hnew : ref ∉ s.edges := by
    intro hmem
    rw [hplace.1 hmem] at hfree
    cases hfree
  have hids : derivedEdgeId ((s.insertEdge ref options).heap ref) none =
      derivedEdgeId (s.heap ref) options := by
    rw [heap_insertEdge]
    cases options with
    | none => rfl
    | some given =>
      refine derivedEdgeId_replaced ?_
      rcases hplace.2 with hown | hgiven | ⟨hnone, -⟩
      · exact .inl hown
      · exact .inr hgiven
      · cases hnone
  have hends : ((s.insertEdge ref options).heap ref).source = (s.heap ref).source ∧
      ((s.insertEdge ref options).heap ref).target = (s.heap ref).target := by
    rw [heap_insertEdge]
    split_ifs <;> exact ⟨rfl, rfl⟩
  refine h.relist ref (edgeKey (s.heap ref) options) rfl (Nat.le_refl _) href
    ?_ ?_ (fun other _ hne => if_neg hne) (fun hmem => absurd hmem hnew) ?_ ?_ rfl ?_
  · intro other
    simp [State.insertEdge, hfree, or_comm]
  · refine List.nodup_append.2 ⟨h.edgesNodup, List.nodup_singleton ref, ?_⟩
    rintro other hother last hlast rfl
    rw [List.mem_singleton.1 hlast] at hother
    exact hnew hother
  · rw [State.keyOf, edgeKey, hids, hends.1, hends.2, edgeKey]
  · rw [hends.1, hends.2]
    exact hstored
  · rw [hids]
    funext other
    simp [State.insertEdge, State.setEdgeMap, State.setDerived, State.setEdge, h.not_derived hfree]

theorem Consistent.placeEdge {s : State C J} (h : Consistent s) {ref : Nat}
    {options : Option EdgeOptions} (href : ref < s.nextRef)
    (hstored : (s.heap ref).source ∈ s.nodes ∧ (s.heap ref).target ∈ s.nodes)
    (hplace : Placeable s ref options) : Consistent (s.placeEdge ref options) := by
  simp only [State.placeEdge]
  split
  · split_ifs
    · exact h
    · exact h.replaceEdge href hstored hplace ‹_›
  · exact h.insertEdge href hstored hplace ‹_›

theorem Consistent.installRow {s : State C J} (h : Consistent s) {ref : Nat} {row : Row J}
    (hnew : ref ∉ s.edges) (href : ref < s.nextRef) (hfree : s.edgeMap row.address = none)
    (hopts : (s.heap ref).opts = none) (hsource : (s.heap ref).source.key = row.source)
    (htarget : (s.heap ref).target.key = row.target)
    (hstored : (s.heap ref).source ∈ s.nodes ∧ (s.heap ref).target ∈ s.nodes) :
    Consistent (s.installRow ref row) := by
  have hid : derivedEdgeId (s.heap ref) none = none := by
    rw [derivedEdgeId, hopts]
    rfl
  refine h.relist ref row.address rfl (Nat.le_refl _) href
    ?_ ?_ (fun _ _ _ => rfl) (fun hmem => absurd hmem hnew) ?_ hstored rfl ?_
  · intro other
    simp [State.installRow, State.setEdgeMap, hfree, or_comm]
  · refine List.nodup_append.2 ⟨h.edgesNodup, List.nodup_singleton ref, ?_⟩
    rintro other hother last hlast rfl
    rw [List.mem_singleton.1 hlast] at hother
    exact hnew hother
  · show edgeKey (s.heap ref) none = row.address
    rw [edgeKey, hid, hsource, htarget]
    rfl
  · funext other
    show s.derivedEdgeKeys other =
      if other = row.address then (derivedEdgeId (s.heap ref) none).isSome else s.derivedEdgeKeys other
    split_ifs with hother
    · rw [hid, hother, h.not_derived hfree]
      rfl
    · rfl

/-! ## Removing nodes -/

theorem selected_pruned (keys : List Key) (s : State C J) : Selected (s.pruned keys) where
  selected _ hkey := (List.mem_filter.1 hkey).2
  rootsNodup := (normalizeOutlineRootKeys_spec s _).1
  roots := (normalizeOutlineRootKeys_spec s _).2

theorem sameGraph_pruned (keys : List Key) (s : State C J) : SameGraph s (s.pruned keys) :=
  .of_eq rfl rfl rfl rfl rfl rfl

/-- Without the edges that touch them, nodes may be taken away. -/
theorem Consistent.dropNodes {s : State C J} (h : Consistent s) {keys : List Key}
    (hends : ∀ ref ∈ s.edges, (s.heap ref).source.key ∉ keys ∧ (s.heap ref).target.key ∉ keys) :
    Consistent ({ s with nodes := s.nodes.filter fun node => node.key ∉ keys } : State C J) where
  nodesNodup := h.nodesNodup.sublist (List.filter_sublist.map Node.key)
  edgesNodup := h.edgesNodup
  allocated := h.allocated
  mapped := h.mapped
  listed := h.listed
  stored ref href := by
    have hkept : ∀ node ∈ s.nodes, node.key ∉ keys →
        node ∈ s.nodes.filter fun node => node.key ∉ keys := fun node hnode hkey =>
      List.mem_filter.2 ⟨hnode, by simpa using hkey⟩
    exact ⟨hkept _ (h.stored ref href).1 (hends ref href).1,
      hkept _ (h.stored ref href).2 (hends ref href).2⟩
  derived := h.derived

theorem Consistent.removeNodes {s : State C J} (h : Consistent s) (nodes : List Node) :
    Consistent (s.removeNodes nodes) := by
  simp only [State.removeNodes]
  split_ifs with hnone
  · exact h
  set removed := nodes.filter fun node => s.lookup node.key = some node with hremoved
  have hends : ∀ node ∈ s.nodes, node ∉ removed → node.key ∉ removed.map Node.key := by
    rintro node hnode hnot hkey
    obtain ⟨other, hother, hsame⟩ := List.mem_map.1 hkey
    have hfound := hother
    rw [hremoved, List.mem_filter] at hfound
    have hstored : s.lookup other.key = some other := by simpa using hfound.2
    rw [hsame, h.lookup_eq hnode] at hstored
    rw [← Option.some.inj hstored] at hother
    exact hnot hother
  refine Consistent.same (Consistent.dropNodes (h.forgetEdges _) ?_) (sameGraph_pruned _ _)
  intro ref href
  obtain ⟨hlisted, hkept⟩ := List.mem_filter.1 href
  have happart : (s.heap ref).source ∉ removed ∧ (s.heap ref).target ∉ removed := by
    simpa [State.touches] using hkept
  exact ⟨hends _ (h.stored ref hlisted).1 happart.1, hends _ (h.stored ref hlisted).2 happart.2⟩

theorem Selected.removeNodes {s : State C J} (h : Selected s) (nodes : List Node) :
    Selected (s.removeNodes nodes) := by
  simp only [State.removeNodes]
  split_ifs
  · exact h
  · exact selected_pruned _ _

theorem consistent_emptied (s : State C J) : Consistent s.emptied where
  nodesNodup := List.nodup_nil
  edgesNodup := List.nodup_nil
  allocated _ href := absurd href List.not_mem_nil
  mapped _ href := absurd href List.not_mem_nil
  listed _ _ href := by cases href
  stored _ href := absurd href List.not_mem_nil
  derived _ := ⟨fun h => absurd h Bool.false_ne_true, fun ⟨_, href, _⟩ => absurd href List.not_mem_nil⟩

end Space2.GraphMap
