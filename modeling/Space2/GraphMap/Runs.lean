import Space2.Base.Runs
import Space2.GraphMap.Loading

/-!
# Runs of a graph map

Each call comes with the environment it meets, and a call that raises leaves the state it
raised in. Three calls can break the map: adding an edge object that is listed already
under another origin or whose ends are two objects of one key, removing an object that
another edge has replaced, and a restore that raises while keys are selected.
-/
namespace Space2.GraphMap
open Base Base.Op
open ReferenceLifecycle (Key)

variable {C J : Type}

inductive Action (C J : Type)
  | addNode (node : Node)
  | newEdge (source target : Node) (label : Option String) (color : Option C)
  | addEdge (ref : Nat) (edgeOpts : Option EdgeOptions)
  | removeEdge (edgeOrKey : EdgeOrKey)
  | removeNodes (nodes : List Node)
  | loadByKey (key : Key)
  | refreshAdapters (keys : List Key)
  | restoreState (payload : Payload J)
  | installReferenceState (payload : Payload J)
  | setSelectedNodeKeys (keys : List Key)
  | setOutlineRootKeys (keys : List Key)
  | setViewMode (mode : ViewMode)
  | sharedNodeRemoved (keys : List Key)
  | sharedEdgeAdded (edge : Edge C) (options : Option EdgeOptions)
  | sharedEdgeRemoved (edge : Edge C) (options : Option EdgeOptions)
  | sharedNodeReplaced (key : Key)
  | sharedNodeMorphed (source : Key) (target : Option Key)
  | linkEntityUpserted (link : Link)
  | linkEntityDeleted (id : String)
  | identityChanged (key : Key)
  | reconcileLinkProjections

def Action.run (env : Env C J) : Action C J → MapOp C J Unit
  | .addNode node => do
    let _ ← GraphMap.addNode env node
  | .newEdge source target label color => do
    let _ ← graphEdge source target label color
  | .addEdge ref edgeOpts => do
    let s ← Op.get
    if ref < s.nextRef then GraphMap.addEdge env ref edgeOpts else pure ()
  | .removeEdge edgeOrKey => GraphMap.removeEdge env edgeOrKey
  | .removeNodes nodes => Op.modify (State.removeNodes nodes)
  | .loadByKey key => do
    let _ ← GraphMap.loadByKey env key
  | .refreshAdapters keys => refreshAdaptersByScheme env keys
  | .restoreState payload => GraphMap.restoreState env payload
  | .installReferenceState payload => GraphMap.installReferenceState env payload
  | .setSelectedNodeKeys keys => Op.modify (State.setSelectedNodeKeys keys)
  | .setOutlineRootKeys keys => Op.modify (State.setOutlineRootKeys keys)
  | .setViewMode mode => Op.modify (State.setViewMode mode)
  | .sharedNodeRemoved keys => Op.modify (syncSharedNodeRemoved keys)
  | .sharedEdgeAdded edge options => syncSharedEdgeAdded env edge options
  | .sharedEdgeRemoved edge options => Op.modify (syncSharedEdgeRemoved edge options)
  | .sharedNodeReplaced key => syncSharedNodeReplaced env key
  | .sharedNodeMorphed source target => syncSharedNodeMorphed env source target
  | .linkEntityUpserted link => upsertLinkEntityEdge env link
  | .linkEntityDeleted id => Op.modify (removeDerivedLinkEdgesById id)
  | .identityChanged key => refreshLinkEdgesForKey env key
  | .reconcileLinkProjections => GraphMap.reconcileLinkProjections env

def step (s : State C J) (call : Env C J × Action C J) : State C J := (call.2.run call.1 s).2

/-- `create-graph-map` -/
def State.initial : State C J where
  nodes := []
  heap _ := ⟨⟨0, ""⟩, ⟨0, ""⟩, "", none, none⟩
  nextRef := 0
  edges := []
  edgeMap _ := none
  derivedEdgeKeys _ := false
  explicitEdgeRows _ := none
  islands := []
  nextIslandId := 1
  unresolvedRestoredNodeKeys := []
  unresolvedRestoredEdgeList := []
  selectedNodeKeys := []
  focusedNodeKey := none
  viewMode := .spatial
  outlineRootKeys := []

/-! ## The condition on a step -/

/-- A listed edge that is added again keeps the origin it has. -/
def Readded (env : Env C J) (edge : Edge C) (edgeOpts : Option EdgeOptions) : Prop :=
  EdgeOptions.id edgeOpts = EdgeOptions.id edge.opts ∧
    (EdgeOptions.id edge.opts = none → ∀ authored,
      env.authorDomainEdge edge.source edge.target edgeOpts = .ok authored →
        EdgeOptions.id authored = none)

/-- An object with an origin that is added without options finds its key free. -/
def Regained (env : Env C J) (s : State C J) (edge : Edge C) : Prop :=
  s.edgeMap (edgeKey edge none) = none ∧ Spares env [edgeKey edge none] edge.source.key ∧
    Spares env [edgeKey edge none] edge.target.key

def Addable (env : Env C J) (s : State C J) (ref : Nat) (edgeOpts : Option EdgeOptions) : Prop :=
  ((s.heap ref).source.key = (s.heap ref).target.key → (s.heap ref).source = (s.heap ref).target) ∧
    (ref ∈ s.edges → Readded env (s.heap ref) edgeOpts) ∧
    (ref ∉ s.edges → EdgeOptions.id (s.heap ref).opts = none ∨
      (EdgeOptions.id edgeOpts).isSome = true ∨ edgeOpts = none ∧ Regained env s (s.heap ref))

def Allowed (s : State C J) (call : Env C J × Action C J) : Prop :=
  match call.2 with
  | .addEdge ref edgeOpts => Addable call.1 s ref edgeOpts
  | .removeEdge (.edge ref) => ref ∈ s.edges ∨ s.edgeMap (s.keyOf ref) = none
  | .restoreState payload =>
    Restorable call.1 payload ∨ s.selectedNodeKeys = [] ∧ s.outlineRootKeys = []
  | _ => True

/-! ## Each call -/

variable {env : Env C J}

theorem sound_iff_kept (env : Env C J) {s : State C J} : Sound s ↔ Kept env False True s :=
  ⟨fun h => ⟨h.consistent, fun _ => h.selected, False.elim⟩,
    fun h => ⟨h.consistent, h.selected trivial⟩⟩

/-- What keeps a map whose environment may raise anywhere. -/
theorem keeps_sound {α : Type} {p : MapOp C J α}
    (h : ∀ rest, Ensures (KeptWith env False True rest) p
      (fun _ s => Kept env False True s) (fun s => Kept env False True s ∧ ¬ False)) :
    Ensures Sound p (fun _ => Sound) Sound :=
  ensures_framed State.rest fun rest => (h rest).weaken
    (fun _ hs => ⟨(sound_iff_kept env).1 hs.1, hs.2⟩) (fun _ _ hs => (sound_iff_kept env).2 hs)
    fun _ hs => (sound_iff_kept env).2 hs.1

theorem keeps_addNode (node : Node) :
    Ensures Sound (addNode env node) (fun _ => Sound) Sound :=
  keeps_sound fun rest => (addNode_ensures [] [] rest False.elim (spares_nil env _) (by simp)
    False.elim).weaken (fun s hs => ⟨hs.1, hs.2 ▸ aside_nil s⟩) (fun _ _ hs => hs.2.1) fun _ hs => hs

theorem keeps_loadByKey (key : Key) :
    Ensures Sound (loadByKey env key) (fun _ => Sound) Sound :=
  keeps_sound fun rest => (loadByKey_ensures rest False.elim key).weaken (fun _ hs => hs)
    (fun _ _ hs => hs.1) fun _ hs => hs

theorem Sound.same {s s' : State C J} (h : Sound s) (hsame : SameGraph s s')
    (hselected : s'.selectedNodeKeys = s.selectedNodeKeys)
    (hroots : s'.outlineRootKeys = s.outlineRootKeys) : Sound s' where
  consistent := h.consistent.same hsame
  selected := h.selected.of_loaded (fun key hkey => by
    rw [loaded_iff, hsame.nodes, ← loaded_iff]
    exact hkey) hselected hroots

theorem Sound.of_edges {s s' : State C J} (h : Sound s) (hs' : Consistent s')
    (hnodes : s'.nodes = s.nodes) (hselected : s'.selectedNodeKeys = s.selectedNodeKeys)
    (hroots : s'.outlineRootKeys = s.outlineRootKeys) : Sound s' where
  consistent := hs'
  selected := h.selected.of_loaded (fun key hkey => by
    rw [loaded_iff, hnodes, ← loaded_iff]
    exact hkey) hselected hroots

theorem Sound.replaceNode {s : State C J} (h : Sound s) {existing node : Node}
    (hexisting : existing ∈ s.nodes) (hkey : existing.key = node.key) :
    Sound (s.replaceNode existing node) where
  consistent := h.consistent.replaceNode hexisting hkey
  selected := h.selected.of_loaded (fun key hloaded => by
    rw [loaded_replaceNode]
    exact hloaded) rfl rfl

/-- A listed edge that is added again takes its own place. -/
theorem placeable_readded {s : State C J} (h : Consistent s) {ref : Nat} (hlisted : ref ∈ s.edges)
    {edgeOpts options : Option EdgeOptions} (hadd : Readded env (s.heap ref) edgeOpts)
    (hoptions : Chosen env (s.heap ref) edgeOpts options) : Placeable s ref options := by
  have hid : EdgeOptions.id options = EdgeOptions.id (s.heap ref).opts := by
    by_cases hown : EdgeOptions.id (s.heap ref).opts = none
    · rcases hoptions with ⟨-, authored, hauthored, rfl⟩ | ⟨-, rfl⟩
      · cases authored with
        | none => exact hadd.1
        | some given =>
          rw [hown]
          exact hadd.2 hown (some given) hauthored
      · exact hadd.1
    · rw [hoptions.given hown]
      exact hadd.1
  have hkey : edgeKey (s.heap ref) options = s.keyOf ref := by
    rw [State.keyOf, edgeKey, edgeKey, derivedEdgeId, derivedEdgeId, hid, Option.or_self]
    rfl
  refine ⟨fun _ => hkey ▸ h.mapped ref hlisted, ?_⟩
  cases hown : EdgeOptions.id (s.heap ref).opts with
  | none => exact .inl rfl
  | some id => exact .inr (.inl (by rw [hid, hown]; rfl))

theorem keeps_readd {s : State C J} (hs : Sound s) {ref : Nat} {edgeOpts : Option EdgeOptions}
    (hlisted : ref ∈ s.edges) (hadd : Readded env (s.heap ref) edgeOpts) :
    Sound (addEdge env ref edgeOpts s).2 := by
  obtain ⟨hsource, htarget⟩ := hs.consistent.stored ref hlisted
  have hrun : addEdge env ref edgeOpts s = placeStored env ref edgeOpts s :=
    addEdgeWith_stored hs.consistent hsource htarget edgeOpts
  rw [hrun]
  have hplaced : Ensures (· = s) (placeStored env ref edgeOpts) (fun _ => Sound) Sound := by
    refine ensures_get fun s' hs' => ?_
    subst hs'
    refine ensures_require_bind (fun _ => ?_) fun _ _ h => h ▸ hs
    refine ensures_require_bind (fun _ => ?_) fun _ _ h => h ▸ hs
    refine authoredOptions_bind_ensures (fun h : False => h.elim)
      (fun _ h _ => h ▸ hs) fun options hoptions => ensures_modify fun s' hs' => ?_
    subst hs'
    exact (sound_iff_kept env).2 (kept_placeEdge ((sound_iff_kept env).1 hs)
      (hs.consistent.allocated ref hlisted) ⟨hsource, htarget⟩
      (placeable_readded hs.consistent hlisted hadd hoptions))
  exact hplaced.left (fun _ _ h => h) (fun _ h => h) rfl

theorem keeps_addEdge {s : State C J} (hs : Sound s) {ref : Nat} {edgeOpts : Option EdgeOptions}
    (href : ref < s.nextRef) (hadd : Addable env s ref edgeOpts) :
    Sound (addEdge env ref edgeOpts s).2 := by
  by_cases hlisted : ref ∈ s.edges
  · exact keeps_readd hs hlisted (hadd.2.1 hlisted)
  · have hfree : ∀ free : List String, (∀ key ∈ free, s.edgeMap key = none) →
        (EdgeOptions.id (s.heap ref).opts = none ∨ (EdgeOptions.id edgeOpts).isSome = true ∨
          edgeOpts = none ∧ edgeKey (s.heap ref) none ∈ free) →
        Spares env free (s.heap ref).source.key ∧ Spares env free (s.heap ref).target.key →
        Sound (addEdge env ref edgeOpts s).2 := by
      intro free hfree hids hspares
      have hadded : Ensures (fun s' => Kept env False True s' ∧
          Aside [(ref, s.heap ref)] [] free s.rest s') (addEdge env ref edgeOpts)
          (fun _ s' => Kept env False True s' ∧ s'.rest = s.rest)
          (fun s' => Kept env False True s' ∧ ¬ False) :=
        addEdge_ensures False.elim hadd.1 hids hspares False.elim
      refine hadded.left (fun _ _ h => (sound_iff_kept env).2 h.1) (fun _ h => (sound_iff_kept env).2 h.1)
        ⟨(sound_iff_kept env).1 hs, ?_, by simp, hfree, rfl⟩
      simpa using ⟨href, hlisted⟩
    rcases hadd.2.2 hlisted with hown | hgiven | ⟨hnone, hkey, hspares⟩
    · exact hfree [] (by simp) (.inl hown) ⟨spares_nil env _, spares_nil env _⟩
    · exact hfree [] (by simp) (.inr (.inl hgiven)) ⟨spares_nil env _, spares_nil env _⟩
    · exact hfree [edgeKey (s.heap ref) none] (by simpa using hkey)
        (.inr (.inr ⟨hnone, List.mem_singleton.2 rfl⟩)) hspares

theorem keeps_removeEdge {s : State C J} (hs : Sound s) {edgeOrKey : EdgeOrKey}
    (h : ∀ ref, edgeOrKey = .edge ref → ref ∈ s.edges ∨ s.edgeMap (s.keyOf ref) = none) :
    Sound (removeEdge env edgeOrKey s).2 := by
  have hdetach : ∀ ref, ref ∈ s.edges ∨ s.edgeMap (s.keyOf ref) = none →
      Ensures (· = s) (do
        Op.modify (State.detach ref)
        Op.ofExcept (env.removeDomainEdge (s.heap ref)) : MapOp C J Unit) (fun _ => Sound) Sound := by
    intro ref href
    refine ensures_modify_bind Sound (fun s' hs' => ?_)
      (ensures_ofExcept (fun _ _ _ h => h) fun _ _ _ h => h)
    subst hs'
    exact hs.of_edges (hs.consistent.detach href) rfl rfl rfl
  have hremove : Ensures (· = s) (removeEdge env edgeOrKey) (fun _ => Sound) Sound := by
    refine ensures_get fun s' hs' => ?_
    subst hs'
    cases edgeOrKey with
    | edge ref => exact hdetach ref (h ref rfl)
    | key key =>
      split
      · next ref href => exact hdetach ref (.inl (hs.consistent.listed key ref href).1)
      · exact ensures_pure fun _ h => h ▸ hs
  exact hremove.left (fun _ _ h => h) (fun _ h => h) rfl

theorem Sound.removeNodes {s : State C J} (hs : Sound s) (nodes : List Node) :
    Sound (s.removeNodes nodes) :=
  ⟨hs.consistent.removeNodes nodes, hs.selected.removeNodes nodes⟩

theorem Sound.forgetEdges {s : State C J} (hs : Sound s) (removed : Nat → Bool) :
    Sound (s.forgetEdges removed) :=
  hs.of_edges (hs.consistent.forgetEdges removed) rfl rfl rfl

theorem keeps_replaceNode (node : Node) :
    Ensures Sound (Op.modify fun s : State C J =>
      match s.lookup node.key with
      | some existing => s.replaceNode existing node
      | none => s) (fun _ => Sound) Sound := by
  refine ensures_modify fun s hs => ?_
  split
  · next existing hexisting =>
    exact hs.replaceNode (lookup_mem hexisting).1 (lookup_mem hexisting).2
  · exact hs

theorem keeps_refreshAdapters (keys : List Key) :
    Ensures Sound (refreshAdaptersByScheme env keys) (fun _ => Sound) Sound :=
  ensures_ofExcept_bind (fun _ _ => ensures_forEach_inv fun node _ => keeps_replaceNode node)
    fun _ _ _ h => h

theorem keeps_addFresh {s : State C J} (hs : Sound s) {source target : Node} {sourceKey targetKey : Key}
    (hsource : s.lookup sourceKey = some source) (htarget : s.lookup targetKey = some target)
    (label : Option String) (color : Option C) (options : Option EdgeOptions) :
    Ensures (· = s) (do
      let ref ← graphEdge source target label color
      addEdge env ref options) (fun _ => Sound) Sound := by
  have hadded : Ensures (fun s' => KeptWith env False True s.rest s' ∧ source ∈ s'.nodes ∧
      target ∈ s'.nodes) (do
      let ref ← graphEdge source target label color
      addEdge env ref options) (fun _ s' => KeptWith env False True s.rest s')
      (fun s' => Kept env False True s' ∧ ¬ False) :=
    addFresh_ensures s.rest False.elim label color options
  refine hadded.weaken (fun s' hs' => ?_) (fun _ _ h => (sound_iff_kept env).2 h.1) fun _ h =>
    (sound_iff_kept env).2 h.1
  subst hs'
  exact ⟨⟨(sound_iff_kept env).1 hs, rfl⟩, (lookup_mem hsource).1, (lookup_mem htarget).1⟩

theorem keeps_sharedEdgeAdded (edge : Edge C) (options : Option EdgeOptions) :
    Ensures Sound (syncSharedEdgeAdded (J := J) env edge options) (fun _ => Sound) Sound := by
  refine ensures_get fun s hs => ?_
  split
  · next source target hsource htarget => exact keeps_addFresh hs hsource htarget _ _ _
  · exact ensures_pure fun _ h => h ▸ hs

theorem keeps_sharedNodeReplaced (key : Key) :
    Ensures Sound (syncSharedNodeReplaced env key) (fun _ => Sound) Sound := by
  refine ensures_get fun s hs => ?_
  split
  · next existing hexisting =>
    refine ensures_ofExcept_bind (fun created _ => ?_) fun _ _ _ h => h ▸ hs
    split
    · next node hcreated =>
      refine ensures_modify fun s' hs' => ?_
      subst hs'
      exact hs.replaceNode (lookup_mem hexisting).1 ((lookup_mem hexisting).2.trans node.2.symm)
    · exact ensures_pure fun _ h => h ▸ hs
  · exact ensures_pure fun _ h => h ▸ hs

theorem keeps_sharedNodeMorphed (source : Key) (target : Option Key) :
    Ensures Sound (syncSharedNodeMorphed env source target) (fun _ => Sound) Sound := by
  refine ensures_get fun s hs => ?_
  split_ifs
  · refine ensures_modify_bind Sound (fun s' hs' => hs' ▸ hs.removeNodes _) ?_
    split
    · exact ensures_bind (keeps_loadByKey _) fun _ => ensures_pure fun _ h => h
    · exact ensures_pure fun _ h => h
  · exact ensures_pure fun _ h => h ▸ hs

theorem keeps_upsertLinkEntityEdge (link : Link) :
    Ensures Sound (upsertLinkEntityEdge env link) (fun _ => Sound) Sound := by
  refine ensures_ofExcept_bind (fun sourceKey _ => ?_) fun _ _ _ h => h
  refine ensures_ofExcept_bind (fun targetKey _ => ?_) fun _ _ _ h => h
  refine ensures_get fun s hs => ?_
  split
  · next source target hsource htarget =>
    split_ifs
    · exact ensures_modify fun s' hs' => hs' ▸ hs.forgetEdges _
    · exact ensures_pure fun _ h => h ▸ hs
    · have hforgotten : Sound (removeDerivedLinkEdgesById link.id s) := hs.forgetEdges _
      refine ensures_modify_bind (· = removeDerivedLinkEdgesById link.id s) (fun s' hs' => hs' ▸ rfl) ?_
      have hends : (removeDerivedLinkEdgesById link.id s).lookup sourceKey = some source ∧
          (removeDerivedLinkEdgesById link.id s).lookup targetKey = some target :=
        ⟨hsource, htarget⟩
      exact keeps_addFresh hforgotten hends.1 hends.2 _ _ _
  · exact ensures_modify fun s' hs' => hs' ▸ hs.forgetEdges _

theorem keeps_identityChanged (key : Key) :
    Ensures Sound (refreshLinkEdgesForKey env key) (fun _ => Sound) Sound :=
  ensures_ofExcept_bind (fun _ _ => ensures_forEach_inv fun link _ => keeps_upsertLinkEntityEdge link)
    fun _ _ _ h => h

theorem keeps_reconcile :
    Ensures Sound (reconcileLinkProjections env) (fun _ => Sound) Sound := by
  refine ensures_ofExcept_bind (fun links _ => ?_) fun _ _ _ h => h
  refine ensures_bind (ensures_forEach_inv fun link _ => keeps_upsertLinkEntityEdge link) fun _ =>
    ensures_modify fun s hs => ?_
  generalize s.edges.filterMap (fun ref => (s.heap ref).linkId) = ids
  induction ids generalizing s with
  | nil => exact hs
  | cons id ids ih =>
    rw [List.foldl_cons]
    apply ih
    split_ifs
    · exact hs
    · exact hs.forgetEdges _

theorem Sound.sweep {s : State C J} (hs : Sound s) (condition : State C J → Nat → Bool) :
    Sound (s.sweep condition) := by
  have hframe : ∀ refs : List Nat,
      let swept := (refs.foldr (fun ref swept =>
        if condition swept.1 ref = true then (swept.1.forget (swept.1.keyOf ref), swept.2)
        else (swept.1, ref :: swept.2)) (s, [])).1
      swept.nodes = s.nodes ∧ swept.selectedNodeKeys = s.selectedNodeKeys ∧
        swept.outlineRootKeys = s.outlineRootKeys := by
    intro refs
    induction refs with
    | nil => exact ⟨rfl, rfl, rfl⟩
    | cons ref refs ih =>
      rw [List.foldr_cons]
      split_ifs <;> exact ih
  obtain ⟨hnodes, hselected, hroots⟩ := hframe s.edges
  exact hs.of_edges (hs.consistent.sweep condition) hnodes hselected hroots

/-! ## Installing a reference state -/

theorem keeps_installNodes (keys : List Key) :
    Ensures Sound (installNodes env keys) (fun _ => Sound) Sound := by
  induction keys with
  | nil => exact ensures_pure fun _ h => h
  | cons key keys ih =>
    exact ensures_bind (keeps_loadByKey key) fun _ =>
      ensures_bind ih fun _ => ensures_pure fun _ h => h

theorem Sound.installRow {s : State C J} (hs : Sound s) {row : Row J} {source target : Node}
    (hsource : s.lookup row.source = some source) (htarget : s.lookup row.target = some target)
    (hfree : s.edgeMap row.address = none) (label : String) (color : Option C) :
    Sound ((s.allocate ⟨source, target, label, color, none⟩).installRow s.nextRef row) := by
  have hheap := heap_allocate s (⟨source, target, label, color, none⟩ : Edge C)
  have hsame := sameGraph_allocate hs.consistent (⟨source, target, label, color, none⟩ : Edge C)
  refine hs.of_edges ((hs.consistent.same hsame).installRow hs.consistent.nextRef_notMem
    (Nat.lt_succ_self _) hfree ?_ ?_ ?_ ?_) rfl rfl rfl
  · rw [hheap]
  · rw [hheap]
    exact (lookup_mem hsource).2
  · rw [hheap]
    exact (lookup_mem htarget).2
  · rw [hheap]
    exact ⟨(lookup_mem hsource).1, (lookup_mem htarget).1⟩

theorem keeps_installEdge (row : Row J) :
    Ensures Sound (installEdge env row) (fun _ => Sound) Sound := by
  refine ensures_modify_bind Sound (fun s hs => hs.same (.of_eq rfl rfl rfl rfl rfl rfl) rfl rfl)
    (ensures_get fun s hs => ?_)
  split
  · next source target hsource htarget =>
    split_ifs with hfree
    · intro s' hs'
      subst hs'
      refine ⟨fun unresolved s' hrun => ?_, fun _ s' hrun => absurd (Prod.mk.inj hrun).1 (by simp)⟩
      obtain rfl := (Prod.mk.inj hrun).2
      exact hs.installRow hsource htarget hfree _ _
    · exact ensures_pure fun _ h => h ▸ hs
  · exact ensures_pure fun _ h => h ▸ hs

theorem keeps_installEdges (rows : List (Row J)) :
    Ensures Sound (installEdges env rows) (fun _ => Sound) Sound := by
  induction rows with
  | nil => exact ensures_pure fun _ h => h
  | cons row rows ih =>
    exact ensures_bind (keeps_installEdge row) fun _ =>
      ensures_bind ih fun _ => ensures_pure fun _ h => h

theorem keeps_upsertIsland (island : Island J) :
    Ensures (Sound (C := C)) (upsertIsland island) (fun _ => Sound) Sound := by
  have hput : ∀ s : State C J, Sound s → Sound (s.putIsland island) := fun s hs =>
    hs.same (.of_eq rfl rfl rfl rfl rfl rfl) rfl rfl
  refine ensures_get fun s hs => ?_
  split
  · exact ensures_require_bind (fun _ => ensures_modify fun s' hs' => hs' ▸ hput s hs)
      fun _ s' hs' => hs' ▸ hs
  · exact ensures_modify fun s' hs' => hs' ▸ hput s hs

theorem keeps_installReferenceState (payload : Payload J) :
    Ensures Sound (installReferenceState env payload) (fun _ => Sound) Sound := by
  have hsame : ∀ s s' : State C J, Sound s → s'.nodes = s.nodes → s'.heap = s.heap →
      s'.nextRef = s.nextRef → s'.edges = s.edges → s'.edgeMap = s.edgeMap →
      s'.derivedEdgeKeys = s.derivedEdgeKeys → s'.selectedNodeKeys = s.selectedNodeKeys →
      s'.outlineRootKeys = s.outlineRootKeys → Sound s' :=
    fun s s' hs h₁ h₂ h₃ h₄ h₅ h₆ h₇ h₈ => hs.same (.of_eq h₁ h₂ h₃ h₄ h₅ h₆) h₇ h₈
  have hmembership : Ensures Sound (installReferenceMembership env payload) (fun _ => Sound) Sound := by
    refine ensures_modify_bind Sound (fun s hs => hs.removeNodes _) ?_
    refine ensures_bind (keeps_installNodes _) fun _ => ?_
    refine ensures_modify_bind Sound (fun s hs => hs.forgetEdges _) ?_
    refine ensures_modify_bind Sound (fun s hs => hsame s _ hs rfl rfl rfl rfl rfl rfl rfl rfl) ?_
    exact ensures_bind (keeps_installEdges _) fun _ => ensures_pure fun _ h => h
  have hislands : Ensures (Sound (C := C)) (installReferenceIslands payload) (fun _ => Sound) Sound :=
    ensures_bind (ensures_forEach_inv fun island _ => keeps_upsertIsland island) fun _ =>
      ensures_modify fun s hs => hsame s _ hs rfl rfl rfl rfl rfl rfl rfl rfl
  refine ensures_bind hmembership fun unresolved => ?_
  refine ensures_modify_bind Sound (fun s hs => hsame s _ hs rfl rfl rfl rfl rfl rfl rfl rfl) ?_
  refine ensures_bind hislands fun _ => ?_
  refine ensures_modify_bind Sound (fun s hs => hsame s _ hs rfl rfl rfl rfl rfl rfl rfl rfl) ?_
  refine ensures_modify_bind Sound (fun s hs => ?_) ?_
  · exact ⟨hs.consistent.same (.of_eq rfl rfl rfl rfl rfl rfl),
      fun key hkey => (List.mem_filter.1 hkey).2, hs.selected.rootsNodup, hs.selected.roots⟩
  refine ensures_modify_bind Sound (fun s hs => hsame s _ hs rfl rfl rfl rfl rfl rfl rfl rfl) ?_
  refine ensures_modify_bind Sound (fun s hs => hsame s _ hs rfl rfl rfl rfl rfl rfl rfl rfl) ?_
  exact ensures_modify fun s hs => ⟨hs.consistent.same (.of_eq rfl rfl rfl rfl rfl rfl),
    hs.selected.selected, (normalizeOutlineRootKeys_spec s _).1, (normalizeOutlineRootKeys_spec s _).2⟩

/-! ## Runs -/

theorem sound_initial : Sound (State.initial : State C J) where
  consistent := consistent_emptied State.initial
  selected := ⟨fun _ h => absurd h List.not_mem_nil, List.nodup_nil,
    fun _ h => absurd h List.not_mem_nil⟩

theorem sound_step {s : State C J} {call : Env C J × Action C J} (hs : Sound s)
    (h : Allowed s call) : Sound (step s call) := by
  obtain ⟨env, action⟩ := call
  have hleft : ∀ {α : Type} {p : MapOp C J α}, Ensures Sound p (fun _ => Sound) Sound →
      Sound (p s).2 := fun hp => hp.left (fun _ _ h => h) (fun _ h => h) hs
  cases action with
  | addNode node => exact hleft (ensures_bind (keeps_addNode node) fun _ => ensures_pure fun _ h => h)
  | newEdge source target label color =>
    exact hs.same (sameGraph_allocate hs.consistent _) rfl rfl
  | addEdge ref edgeOpts =>
    show Sound ((if ref < s.nextRef then GraphMap.addEdge env ref edgeOpts else pure ()) s).2
    split_ifs with href
    · exact keeps_addEdge hs href h
    · exact hs
  | removeEdge edgeOrKey =>
    refine keeps_removeEdge hs fun ref href => ?_
    subst href
    exact h
  | removeNodes nodes => exact hs.removeNodes nodes
  | loadByKey key => exact hleft (ensures_bind (keeps_loadByKey key) fun _ => ensures_pure fun _ h => h)
  | refreshAdapters keys => exact hleft (keeps_refreshAdapters keys)
  | restoreState payload =>
    rcases h with hgood | hempty
    · have hrestored : Ensures (fun s => False → _) (restoreState env payload) (fun _ => Sound)
          (fun s => Kept env (Restorable env payload) False s ∧ ¬ Restorable env payload) :=
        restoreState_ensures env payload False
      exact hrestored.left (fun _ _ h => h) (fun _ h => absurd hgood h.2) False.elim
    · exact (restoreState_ensures env payload True).left (fun _ _ h => h)
        (fun _ h => ⟨h.1.consistent, h.1.selected trivial⟩) fun _ => hempty
  | installReferenceState payload => exact hleft (keeps_installReferenceState payload)
  | setSelectedNodeKeys keys =>
    exact ⟨hs.consistent.same (.of_eq rfl rfl rfl rfl rfl rfl),
      fun key hkey => (List.mem_filter.1 hkey).2, hs.selected.rootsNodup, hs.selected.roots⟩
  | setOutlineRootKeys keys =>
    exact ⟨hs.consistent.same (.of_eq rfl rfl rfl rfl rfl rfl), hs.selected.selected,
      (normalizeOutlineRootKeys_spec s _).1, (normalizeOutlineRootKeys_spec s _).2⟩
  | setViewMode mode => exact hs.same (.of_eq rfl rfl rfl rfl rfl rfl) rfl rfl
  | sharedNodeRemoved keys => exact hs.removeNodes _
  | sharedEdgeAdded edge options => exact hleft (keeps_sharedEdgeAdded edge options)
  | sharedEdgeRemoved edge options =>
    show Sound (syncSharedEdgeRemoved edge options s)
    exact hs.sweep _
  | sharedNodeReplaced key => exact hleft (keeps_sharedNodeReplaced key)
  | sharedNodeMorphed source target => exact hleft (keeps_sharedNodeMorphed source target)
  | linkEntityUpserted link => exact hleft (keeps_upsertLinkEntityEdge link)
  | linkEntityDeleted id => exact hs.forgetEdges _
  | identityChanged key => exact hleft (keeps_identityChanged key)
  | reconcileLinkProjections => exact hleft keeps_reconcile

/-- What the structures of a map say about each other. -/
structure Coherent (s : State C J) : Prop where
  edgesNodup : s.edges.Nodup
  keysNodup : (s.edges.map s.keyOf).Nodup
  edgeMap : ∀ key ref, s.edgeMap key = some ref ↔ ref ∈ s.edges ∧ s.keyOf ref = key
  stored : ∀ ref ∈ s.edges, s.lookup (s.heap ref).source.key = some (s.heap ref).source ∧
    s.lookup (s.heap ref).target.key = some (s.heap ref).target
  derived : ∀ key, s.derivedEdgeKeys key = true ↔
    ∃ ref ∈ s.edges, s.keyOf ref = key ∧ (EdgeOptions.id (s.heap ref).opts).isSome = true
  selected : ∀ key ∈ s.selectedNodeKeys, s.loaded key = true
  rootsNodup : s.outlineRootKeys.Nodup
  roots : ∀ key ∈ s.outlineRootKeys, s.loaded key = true

theorem Sound.coherent {s : State C J} (h : Sound s) : Coherent s where
  edgesNodup := h.consistent.edgesNodup
  keysNodup := List.Nodup.map_on (fun _ hfirst _ hsecond =>
    h.consistent.eq_of_keyOf hfirst hsecond) h.consistent.edgesNodup
  edgeMap key ref := by
    refine ⟨h.consistent.listed key ref, ?_⟩
    rintro ⟨href, rfl⟩
    exact h.consistent.mapped ref href
  stored ref href := ⟨h.consistent.lookup_eq (h.consistent.stored ref href).1,
    h.consistent.lookup_eq (h.consistent.stored ref href).2⟩
  derived := h.consistent.derived
  selected := h.selected.selected
  rootsNodup := h.selected.rootsNodup
  roots := h.selected.roots

theorem map_coherent (calls : List (Env C J × Action C J))
    (h : Along step Allowed State.initial calls) :
    Coherent (calls.foldl step (State.initial : State C J)) := by
  have hkept : ∀ (s : State C J) call, Sound s → Allowed s call → Sound (step s call) :=
    fun _ _ => sound_step
  exact (Along.invariant hkept sound_initial h).coherent

/-- Every scheme has a loader, and no link is stored. -/
def plainEnv : Env Unit Unit where
  hasKeyLoaderForKey _ := true
  createNodeByKey _ := .ok none
  loaders _ h := by cases h
  mountedElsewhere _ := false
  authorDomainEdge _ _ _ := .ok none
  removeDomainEdge _ := .ok ()
  resolveKey key := .ok key
  findEntitiesForKey _ := .ok []
  listEntities := .ok []
  vec4 _ := ()
  components _ := ()
  linkColor := ()

def joinTwice : List (Env Unit Unit × Action Unit Unit) :=
  [.newEdge ⟨0, "a"⟩ ⟨1, "b"⟩ none none, .addEdge 0 none,
    .newEdge ⟨0, "a"⟩ ⟨1, "b"⟩ none none, .addEdge 1 none].map fun action => (plainEnv, action)

theorem map_coherent_joinTwice : Coherent (joinTwice.foldl step State.initial) := by
  refine map_coherent joinTwice ⟨trivial, ⟨fun h => ?_, fun h => ?_, fun _ => .inl rfl⟩, trivial,
    ⟨fun h => ?_, fun h => ?_, fun _ => .inl ?_⟩, trivial⟩
  · exact absurd h (by decide +kernel)
  · exact absurd h List.not_mem_nil
  · exact absurd h (by decide +kernel)
  · exact absurd h (by decide +kernel)
  · decide +kernel

/-- The second edge takes the key of the first; removing the first takes the key away. -/
theorem replaced_edge_removed : ¬ Coherent
    ((joinTwice ++ [(plainEnv, Action.removeEdge (.edge 0))]).foldl step State.initial) := by
  intro h
  have hmapped := (h.edgeMap "a->b" 1).2
  revert hmapped
  decide +kernel

end Space2.GraphMap

/-!
# Islands after a removal

Removing nodes prunes every island to the nodes that are loaded, not to those that were
not removed. The two are the same while islands hold only loaded nodes.
-/
namespace Space2.GraphMap
open ReferenceLifecycle (Key)

variable {C J : Type} {s : State C J} {nodes : List Node}

def State.removedKeys (nodes : List Node) (s : State C J) : List Key :=
  (nodes.filter fun node => s.lookup node.key = some node).map Node.key

/-- The islands lose the removed keys only, in place, and go when nothing is left. -/
def LosesRemovedOnly (nodes : List Node) (s : State C J) : Prop :=
  (s.removeNodes nodes).islands =
    s.islands.filterMap fun island => island.keeping fun key => key ∉ s.removedKeys nodes

theorem loaded_of_removed {key : Key} (hkey : key ∈ s.removedKeys nodes) : s.loaded key = true := by
  obtain ⟨node, hnode, rfl⟩ := List.mem_map.mp hkey
  have hlookup : s.lookup node.key = some node := by simpa using (List.mem_filter.mp hnode).2
  rw [State.loaded, hlookup, Option.isSome_some]

theorem keeping_members {island kept : Island J} {keep : Key → Bool} (hkeeping : island.keeping keep = some kept) :
    kept.members = island.members.filter keep := by
  rw [Island.keeping] at hkeeping
  split at hkeeping
  · cases hkeeping
  · cases hkeeping
    rfl

theorem keeping_eq_none {island : Island J} {keep : Key → Bool} :
    island.keeping keep = none ↔ island.members.filter keep = [] := by
  rw [Island.keeping]
  split <;> simp_all

theorem keeping_congr {island : Island J} {keep keep' : Key → Bool}
    (hsame : ∀ key ∈ island.members, keep key = keep' key) : island.keeping keep = island.keeping keep' := by
  have hmembers : island.members.filter keep = island.members.filter keep' := List.filter_congr hsame
  simp only [Island.keeping, hmembers]

/-- The members that the islands have together. -/
def memberCount (islands : List (Island J)) : ℕ := (islands.map fun island => island.members.length).sum

theorem memberCount_keeping (islands : List (Island J)) (keep : Key → Bool) :
    memberCount (islands.filterMap fun island => island.keeping keep) =
      (islands.map fun island => (island.members.filter keep).length).sum := by
  induction islands with
  | nil => rfl
  | cons island islands ih =>
    rw [List.map_cons, List.sum_cons, ← ih]
    cases hkeeping : island.keeping keep with
    | none =>
      simp only [List.filterMap_cons, hkeeping]
      rw [keeping_eq_none.mp hkeeping, List.length_nil, Nat.zero_add]
    | some kept =>
      simp only [List.filterMap_cons, hkeeping]
      rw [memberCount, List.map_cons, List.sum_cons, keeping_members hkeeping]
      rfl

/-- Keeping fewer members shows, unless those are no members. -/
theorem keeping_eq_iff {islands : List (Island J)} {keep keep' : Key → Bool}
    (hfewer : ∀ key, keep key = true → keep' key = true) :
    (islands.filterMap fun island => island.keeping keep) = (islands.filterMap fun island => island.keeping keep') ↔
      ∀ island ∈ islands, ∀ key ∈ island.members, keep key = keep' key := by
  constructor
  · intro heq
    have hcount := congrArg memberCount heq
    rw [memberCount_keeping, memberCount_keeping] at hcount
    have hle : ∀ island ∈ islands,
        (island.members.filter keep).length ≤ (island.members.filter keep').length := fun island _ =>
      (List.monotone_filter_right island.members hfewer).length_le
    intro island hisland key hkey
    by_contra hne
    have hless : (island.members.filter keep).length < (island.members.filter keep').length := by
      refine lt_of_le_of_ne (hle island hisland) fun hlength => hne ?_
      have hsame := (List.monotone_filter_right island.members hfewer).eq_of_length hlength
      have hiff : key ∈ island.members.filter keep ↔ key ∈ island.members.filter keep' := by rw [hsame]
      rw [List.mem_filter, List.mem_filter, and_iff_right hkey, and_iff_right hkey] at hiff
      exact Bool.eq_iff_iff.mpr hiff
    exact (List.sum_lt_sum _ _ hle ⟨island, hisland, hless⟩).ne hcount
  · intro hsame
    exact List.filterMap_congr fun island hisland => keeping_congr (hsame island hisland)

theorem removeNodes_islands (hsome : s.removedKeys nodes ≠ []) :
    (s.removeNodes nodes).islands = s.islands.filterMap fun island =>
      island.keeping fun key => s.loaded key && decide (key ∉ s.removedKeys nodes) := by
  have hremoved : nodes.filter (fun node => s.lookup node.key = some node) ≠ [] := fun hnone =>
    hsome (by rw [State.removedKeys, hnone]; rfl)
  rw [State.removeNodes, if_neg hremoved]
  refine List.filterMap_congr fun island _ => keeping_congr fun key _ => ?_
  have hloaded : ((s.nodes.filter fun node => node.key ∉ s.removedKeys nodes).find? fun node => node.key = key).isSome =
      (s.loaded key && decide (key ∉ s.removedKeys nodes)) := by
    rw [Bool.eq_iff_iff, List.find?_isSome, State.loaded, State.lookup, Bool.and_eq_true, List.find?_isSome,
      decide_eq_true_eq]
    constructor
    · rintro ⟨node, hnode, hkey⟩
      obtain ⟨hstored, hkept⟩ := List.mem_filter.mp hnode
      have hkey : node.key = key := by simpa using hkey
      subst hkey
      exact ⟨⟨node, hstored, by simp⟩, by simpa using hkept⟩
    · rintro ⟨⟨node, hstored, hkey⟩, hkept⟩
      have hkey : node.key = key := by simpa using hkey
      subst hkey
      exact ⟨node, List.mem_filter.mpr ⟨hstored, by simpa using hkept⟩, by simp⟩
  exact hloaded

/-- The condition is about the map before the removal. -/
theorem losesRemovedOnly_iff (nodes : List Node) (s : State C J) :
    LosesRemovedOnly nodes s ↔
      s.removedKeys nodes = [] ∨ ∀ island ∈ s.islands, ∀ key ∈ island.members, s.loaded key = true := by
  rw [LosesRemovedOnly]
  by_cases hsome : s.removedKeys nodes = []
  · have hnone : nodes.filter (fun node => s.lookup node.key = some node) = [] := List.map_eq_nil_iff.mp hsome
    have hall : ∀ island ∈ s.islands, (island.keeping fun key => key ∉ s.removedKeys nodes) = some island := by
      intro island _
      have hmembers : island.members.filter (fun key => key ∉ s.removedKeys nodes) = island.members := by
        rw [hsome]
        exact List.filter_eq_self.mpr fun _ _ => by simp
      simp only [Island.keeping, hmembers, island.populated, dite_false]
    rw [State.removeNodes, if_pos hnone, List.filterMap_congr hall, List.filterMap_some]
    exact iff_of_true rfl (.inl hsome)
  · have hfewer : ∀ key, (s.loaded key && decide (key ∉ s.removedKeys nodes)) = true →
        decide (key ∉ s.removedKeys nodes) = true := fun key h => (Bool.and_eq_true_iff.mp h).2
    rw [removeNodes_islands hsome, keeping_eq_iff hfewer, or_iff_right hsome]
    refine forall₂_congr fun island _ => forall₂_congr fun key _ => ?_
    by_cases hkey : key ∈ s.removedKeys nodes
    · simp [hkey, loaded_of_removed hkey]
    · simp [hkey]

/-! ## A key that could not be loaded -/

/-- The schemes of `node` and `gone` are known, and nothing is found under `gone`. -/
def partialEnv : Env Unit Unit where
  hasKeyLoaderForKey _ := true
  createNodeByKey key := .ok (if key = "node" then some ⟨⟨0, key⟩, rfl⟩ else none)
  loaders _ h := by cases h
  mountedElsewhere _ := false
  authorDomainEdge _ _ _ := .ok none
  removeDomainEdge _ := .ok ()
  resolveKey key := .ok key
  findEntitiesForKey _ := .ok []
  listEntities := .ok []
  vec4 _ := ()
  components _ := ()
  linkColor := ()

def goneIsland : Island Unit where
  id := "island-1"
  kind := "group"
  members := ["gone"]
  state := ()
  named := by decide
  kinded := by decide
  populated := by decide
  distinct := by decide
  memberNamed := by decide

def restoredPayload : Payload Unit :=
  ⟨["node", "gone"], [], [goneIsland], some 2, [], none, none, []⟩

/-- The island of the key that was not loaded is deleted with another node. -/
theorem island_lost :
    ¬ ∀ (calls : List (Env Unit Unit × Action Unit Unit)) (nodes : List Node),
      LosesRemovedOnly nodes (calls.foldl step State.initial) := by
  intro hall
  have hloses := hall [(partialEnv, .restoreState restoredPayload)] [⟨0, "node"⟩]
  have hids := congrArg (List.map Island.id) hloses
  revert hids
  decide +kernel

end Space2.GraphMap
