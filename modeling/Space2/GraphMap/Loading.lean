import Space2.GraphMap.Soundness

/-!
# Loading and restoring keep the map consistent

New edges are only placed between stored nodes. A state is restored into an emptied map
whose selected keys are stale until they are set again, so that raising half-way leaves
them behind; where the environment answers and no island is named twice, nothing raises.
-/
namespace Space2.GraphMap
open Base Base.Op
open ReferenceLifecycle (Key)

variable {C J : Type} {env : Env C J} {good selecting : Prop}

/-- The map is kept, and what is not a node or an edge is as it was. -/
def KeptWith (env : Env C J) (good selecting : Prop) (rest : Rest J) (s : State C J) : Prop :=
  Kept env good selecting s ∧ s.rest = rest

theorem addFresh_ensures (rest : Rest J) (hgood : good → env.Answers) {source target : Node}
    (label : Option String) (color : Option C) (options : Option EdgeOptions) :
    Ensures (fun s => KeptWith env good selecting rest s ∧ source ∈ s.nodes ∧ target ∈ s.nodes)
      (do
        let ref ← graphEdge source target label color
        addEdge env ref options)
      (fun _ s => KeptWith env good selecting rest s)
      (fun s => Kept env good selecting s ∧ ¬ good) := by
  rintro s ⟨⟨hkept, hrest⟩, hsource, htarget⟩
  set edge : Edge C := ⟨source, target, label.getD "", color, none⟩ with hedge
  have hheap : (s.allocate edge).heap s.nextRef = edge := heap_allocate s edge
  have hrun : (graphEdge source target label color >>= fun ref => addEdge env ref options) s =
      placeStored env s.nextRef options (s.allocate edge) := by
    refine addEdgeWith_stored (hkept.consistent.same (sameGraph_allocate hkept.consistent _)) ?_ ?_ _
    · rw [hheap]
      exact hsource
    · rw [hheap]
      exact htarget
  rw [hrun]
  have hplaced : Ensures (fun s' => s' = s.allocate edge) (placeStored env s.nextRef options)
      (fun _ s' => KeptWith env good selecting rest s')
      (fun s' => Kept env good selecting s' ∧ ¬ good) := by
    have hraise : ∀ (node : Node) (s' : State C J), node ∈ s.nodes →
        ¬ env.hasKeyLoaderForKey node.key = true → s' = s.allocate edge →
        Kept env good selecting s' ∧ ¬ good := by
      rintro node _ hnode hbacked rfl
      exact ⟨hkept.allocate edge, fun h => hbacked (hkept.backed h node hnode)⟩
    refine ensures_get fun s' hs' => ?_
    subst hs'
    rw [hheap]
    refine ensures_require_bind (fun _ => ?_) fun hbacked s' => hraise source s' hsource hbacked
    refine ensures_require_bind (fun _ => ?_) fun hbacked s' => hraise target s' htarget hbacked
    refine authoredOptions_bind_ensures hgood ?_ fun chosen _ => ensures_modify ?_
    · rintro _ rfl hnot
      exact ⟨hkept.allocate edge, hnot⟩
    · rintro _ rfl
      exact ⟨kept_placeNew hkept hsource htarget rfl chosen, (rest_placeEdge _ _ _).trans hrest⟩
  exact hplaced _ rfl

theorem loadByKey_ensures (rest : Rest J) (hgood : good → env.Answers) (key : Key) :
    Ensures (KeptWith env good selecting rest) (loadByKey env key)
      (fun _ s => KeptWith env good selecting rest s)
      (fun s => Kept env good selecting s ∧ ¬ good) := by
  refine ensures_get fun s hs => ?_
  split
  · exact ensures_pure fun _ h => h ▸ hs
  · refine ensures_ofExcept_bind (fun created hcreated => ?_) fun message herror s' hs' => ?_
    · split
      · next node =>
        refine ensures_bind ((addNode_ensures [] [] rest hgood (spares_nil env _) (by simp)
          fun h => ⟨?_, (hgood h).mounts key node hcreated⟩).weaken (fun s' hs' => ?_)
            (fun _ _ h => ⟨h.2.1, h.2.2.rest⟩) fun _ h => h) fun _ => ensures_pure fun _ h => h
        · by_contra hbacked
          rw [node.2, Bool.not_eq_true] at hbacked
          rw [env.loaders key hbacked] at hcreated
          cases hcreated
        · subst hs'
          exact ⟨hs.1, hs.2 ▸ aside_nil _⟩
      · exact ensures_pure fun _ h => h ▸ hs
    · subst hs'
      refine ⟨hs.1, fun h => ?_⟩
      obtain ⟨created, hcreated⟩ := (hgood h).creates key
      rw [herror] at hcreated
      cases hcreated

theorem recompute_ensures (rest : Rest J) (hgood : good → env.Answers) (key : Key) :
    Ensures (KeptWith env good selecting rest) (recomputeLinkEdgesForNode env key)
      (fun _ s => KeptWith env good selecting rest s)
      (fun s => Kept env good selecting s ∧ ¬ good) := by
  have hlinks : Ensures (fun s => Kept env good selecting s ∧ Aside [] [] [] rest s)
      (recomputeLinkEdgesForNode env key)
      (fun _ s => Kept env good selecting s ∧ Aside [] [] [] rest s)
      (fun s => Kept env good selecting s ∧ ¬ good) :=
    recomputeWith_ensures _ hgood (spares_nil env key)
  exact hlinks.weaken (fun s hs => ⟨hs.1, hs.2 ▸ aside_nil s⟩) (fun _ _ hs => ⟨hs.1, hs.2.rest⟩)
    fun _ hs => hs

/-! ## Restoring -/

/-- While a state is restored its islands are not there yet. -/
def Restoring (env : Env C J) (good selecting : Prop) (s : State C J) : Prop :=
  Kept env good selecting s ∧ s.islands = []

theorem Restoring.of_rest {α : Type} {p : MapOp C J α}
    (h : ∀ rest, Ensures (KeptWith env good selecting rest) p
      (fun _ s => KeptWith env good selecting rest s) (fun s => Kept env good selecting s ∧ ¬ good)) :
    Ensures (Restoring env good selecting) p (fun _ => Restoring env good selecting)
      (fun s => Kept env good selecting s ∧ ¬ good) := by
  intro s hs
  refine ⟨fun a s' hrun => ?_, fun message s' hrun => (h s.rest).error ⟨hs.1, rfl⟩ hrun⟩
  obtain ⟨hkept, hrest⟩ := (h s.rest).ok ⟨hs.1, rfl⟩ hrun
  exact ⟨hkept, (congrArg Rest.islands hrest).trans hs.2⟩

theorem Restoring.same {s s' : State C J} (h : Restoring env good selecting s)
    (hsame : SameGraph s s') (hislands : s'.islands = s.islands)
    (hselected : s'.selectedNodeKeys = s.selectedNodeKeys)
    (hroots : s'.outlineRootKeys = s.outlineRootKeys) : Restoring env good selecting s' :=
  ⟨h.1.same hsame hselected hroots, hislands.trans h.2⟩

theorem restoreNode_ensures (hgood : good → env.Answers) (key : Key) :
    Ensures (Restoring env good selecting) (restoreNode env key) (fun _ => Restoring env good selecting)
      (fun s => Kept env good selecting s ∧ ¬ good) := by
  refine ensures_bind (Restoring.of_rest fun rest => loadByKey_ensures rest hgood key) fun node => ?_
  split
  · exact ensures_pure fun _ h => h
  · refine ensures_modify fun s hs => ?_
    unfold State.recordUnresolvedRestoredNode
    split_ifs
    · exact hs
    · exact hs.same (.of_eq rfl rfl rfl rfl rfl rfl) rfl rfl rfl

theorem restoreEdge_ensures (hgood : good → env.Answers) (nodeKeys : List Key) (row : Row J) :
    Ensures (Restoring env good selecting) (restoreEdge env nodeKeys row) (fun _ => Restoring env good selecting)
      (fun s => Kept env good selecting s ∧ ¬ good) := by
  unfold restoreEdge
  split_ifs
  · refine ensures_modify_bind (Restoring env good selecting)
      (fun s hs => hs.same (.of_eq rfl rfl rfl rfl rfl rfl) rfl rfl rfl) (ensures_get fun s hs => ?_)
    split
    · next source target hsource htarget =>
      refine (addFresh_ensures s.rest hgood _ _ _).weaken (fun s' hs' => ?_)
        (fun _ s' hs' => ?_) fun _ h => h
      · subst hs'
        exact ⟨⟨hs.1, rfl⟩, (lookup_mem hsource).1, (lookup_mem htarget).1⟩
      · exact ⟨hs'.1, (congrArg Rest.islands hs'.2).trans hs.2⟩
    · refine ensures_modify fun s' hs' => ?_
      subst hs'
      exact hs.same (.of_eq rfl rfl rfl rfl rfl rfl) rfl rfl rfl
  · exact ensures_pure fun _ h => h

/-- Islands are added one after another, and an id that is met again raises. -/
theorem restoreIslands_ensures (islands : List (Island J)) {distinct : Prop}
    (hdistinct : distinct → (islands.map Island.id).Nodup) :
    Ensures (Restoring env good selecting) (Op.forEach islands restoreIsland)
      (fun _ s => Kept env good selecting s) (fun s => Kept env good selecting s ∧ ¬ distinct) := by
  have hloop : Ensures (fun s => Kept env good selecting s ∧ s.islands = [])
      (Op.forEach islands restoreIsland)
      (fun _ s => Kept env good selecting s ∧ s.islands = islands)
      (fun s => Kept env good selecting s ∧ ¬ distinct) := by
    refine ensures_forEach (I := fun done s => Kept env good selecting s ∧ s.islands = done)
      fun done island rest hislands => ensures_get fun s hs => ?_
    refine ensures_require_bind (fun _ => ensures_modify fun s' hs' => ?_) fun hfound s' hs' => ?_
    · subst hs'
      exact ⟨hs.1.same (.of_eq rfl rfl rfl rfl rfl rfl) rfl rfl, congrArg (· ++ [island]) hs.2⟩
    · subst hs'
      refine ⟨hs.1, fun h => hfound ?_⟩
      have hnodup := hdistinct h
      rw [hislands, List.map_append, List.map_cons, List.nodup_middle, List.nodup_cons,
        ← List.map_append] at hnodup
      rw [State.getIsland, hs.2]
      refine List.find?_eq_none.2 fun other hother => ?_
      simpa using fun hsame : other.id = island.id => hnodup.1
        (hsame ▸ List.mem_map_of_mem (List.mem_append_left rest hother))
  exact hloop.weaken (fun _ hs => hs) (fun _ _ hs => hs.1) fun _ hs => hs

theorem restoring_emptied {s : State C J}
    (h : selecting → s.selectedNodeKeys = [] ∧ s.outlineRootKeys = []) :
    Restoring env good selecting s.emptied := by
  refine ⟨⟨consistent_emptied s, fun hselecting => ?_, fun _ _ hnode => absurd hnode
    List.not_mem_nil⟩, rfl⟩
  obtain ⟨hselected, hroots⟩ := h hselecting
  refine ⟨fun key hkey => ?_, hroots ▸ List.nodup_nil, fun key hkey => ?_⟩
  · exact absurd (hselected ▸ hkey : key ∈ []) List.not_mem_nil
  · exact absurd (hroots ▸ hkey : key ∈ []) List.not_mem_nil

/-- Selected keys and outline roots. -/
structure Sound (s : State C J) : Prop where
  consistent : Consistent s
  selected : Selected s

theorem sound_restoreView {s : State C J} (h : Consistent s) (payload : Payload J) :
    Sound (s.restoreView payload) where
  consistent := h.same (.of_eq rfl rfl rfl rfl rfl rfl)
  selected := by
    refine ⟨fun key hkey => (List.mem_filter.1 hkey).2, ?_, ?_⟩
    · exact (normalizeOutlineRootKeys_spec _ _).1
    · exact (normalizeOutlineRootKeys_spec _ _).2

/-- A payload whose islands have distinct ids, in an environment that answers. -/
def Restorable (env : Env C J) (payload : Payload J) : Prop :=
  env.Answers ∧ (payload.islands.map Island.id).Nodup

theorem restoreState_ensures (env : Env C J) (payload : Payload J) (selecting : Prop) :
    Ensures (fun s => selecting → s.selectedNodeKeys = [] ∧ s.outlineRootKeys = [])
      (restoreState env payload) (fun _ => Sound)
      (fun s => Kept env (Restorable env payload) selecting s ∧ ¬ Restorable env payload) := by
  have hgood : Restorable env payload → env.Answers := And.left
  refine ensures_modify_bind (Restoring env (Restorable env payload) selecting)
    (fun s hs => restoring_emptied hs) ?_
  refine ensures_bind (ensures_forEach_inv fun key _ => restoreNode_ensures hgood key) fun _ => ?_
  refine ensures_bind (ensures_forEach_inv fun row _ =>
    restoreEdge_ensures hgood payload.nodes row) fun _ => ?_
  refine ensures_get_kept fun s _ => ?_
  refine ensures_bind (ensures_forEach_inv fun node _ => Restoring.of_rest fun rest =>
    recompute_ensures rest hgood node.key) fun _ => ?_
  refine ensures_bind (restoreIslands_ensures payload.islands And.right) fun _ => ?_
  refine ensures_modify_bind Consistent
    (fun s hs => hs.consistent.same (.of_eq rfl rfl rfl rfl rfl rfl)) ?_
  exact ensures_modify fun s hs => sound_restoreView hs payload

end Space2.GraphMap
