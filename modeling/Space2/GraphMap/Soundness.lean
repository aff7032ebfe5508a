import Space2.GraphMap.Consistency

/-!
# Operations keep the map consistent

An operation keeps the map consistent also when it raises. `good` says that the
environment answers every question, in which case nothing is raised; `selecting` that the
selected keys are loaded, which a state that is being restored does not promise. An
object that is put aside is one that the operation neither lists nor changes.
-/
namespace Space2.GraphMap
open Base Base.Op
open ReferenceLifecycle (Key)

variable {C J : Type}

/-- No loader, store or author raises, and what is loaded can be mounted. -/
structure Env.Answers (env : Env C J) : Prop where
  creates : ∀ key, ∃ node, env.createNodeByKey key = .ok node
  mounts : ∀ key node, env.createNodeByKey key = .ok (some node) →
    env.mountedElsewhere node.1 = false
  finds : ∀ key, ∃ links, env.findEntitiesForKey key = .ok links ∧ ∀ link ∈ links,
    (∃ source, env.resolveKey link.sourceKey = .ok source) ∧
      ∃ target, env.resolveKey link.targetKey = .ok target
  authors : ∀ source target options, ∃ authored,
    env.authorDomainEdge source target options = .ok authored

structure Kept (env : Env C J) (good selecting : Prop) (s : State C J) : Prop where
  consistent : Consistent s
  selected : selecting → Selected s
  backed : good → ∀ node ∈ s.nodes, env.hasKeyLoaderForKey node.key = true

/-- What nodes and edges are not part of. -/
structure Rest (J : Type) where
  explicitEdgeRows : String → Option (Row J)
  islands : List (Island J)
  nextIslandId : Nat
  unresolvedRestoredNodeKeys : List Key
  unresolvedRestoredEdgeList : List (Row J)
  selectedNodeKeys : List Key
  focusedNodeKey : Option Key
  viewMode : ViewMode
  outlineRootKeys : List Key

def State.rest (s : State C J) : Rest J :=
  ⟨s.explicitEdgeRows, s.islands, s.nextIslandId, s.unresolvedRestoredNodeKeys,
    s.unresolvedRestoredEdgeList, s.selectedNodeKeys, s.focusedNodeKey, s.viewMode,
    s.outlineRootKeys⟩

/-- `kept` are stored nodes, `free` are keys without an edge, and the rest is as it was. -/
structure Aside (objects : List (Nat × Edge C)) (kept : List Node) (free : List String)
    (rest : Rest J) (s : State C J) : Prop where
  objects : ∀ object ∈ objects,
    object.1 < s.nextRef ∧ object.1 ∉ s.edges ∧ s.heap object.1 = object.2
  kept : ∀ node ∈ kept, node ∈ s.nodes
  free : ∀ key ∈ free, s.edgeMap key = none
  rest : s.rest = rest

variable {env : Env C J} {good selecting : Prop}

theorem Kept.same {s s' : State C J} (h : Kept env good selecting s) (hsame : SameGraph s s')
    (hselected : s'.selectedNodeKeys = s.selectedNodeKeys)
    (hroots : s'.outlineRootKeys = s.outlineRootKeys) : Kept env good selecting s' where
  consistent := h.consistent.same hsame
  selected hselecting := (h.selected hselecting).of_loaded (fun key hkey => by
    rw [loaded_iff, hsame.nodes, ← loaded_iff]
    exact hkey) hselected hroots
  backed hgood := by
    rw [hsame.nodes]
    exact h.backed hgood

theorem kept_placeEdge {s : State C J} (h : Kept env good selecting s) {ref : Nat}
    {options : Option EdgeOptions} (href : ref < s.nextRef)
    (hstored : (s.heap ref).source ∈ s.nodes ∧ (s.heap ref).target ∈ s.nodes)
    (hplace : Placeable s ref options) : Kept env good selecting (s.placeEdge ref options) := by
  have hnodes : (s.placeEdge ref options).nodes = s.nodes ∧
      (s.placeEdge ref options).selectedNodeKeys = s.selectedNodeKeys ∧
      (s.placeEdge ref options).outlineRootKeys = s.outlineRootKeys := by
    simp only [State.placeEdge]
    split
    · split_ifs <;> exact ⟨rfl, rfl, rfl⟩
    · exact ⟨rfl, rfl, rfl⟩
  refine ⟨h.consistent.placeEdge href hstored hplace, fun hselecting => ?_, fun hgood => ?_⟩
  · refine (h.selected hselecting).of_loaded (fun key hkey => ?_) hnodes.2.1 hnodes.2.2
    rw [loaded_iff, hnodes.1, ← loaded_iff]
    exact hkey
  · rw [hnodes.1]
    exact h.backed hgood

/-! ## Stored nodes -/

/-- Between stored nodes adding an edge only places it. -/
def placeStored (env : Env C J) (ref : Nat) (edgeOpts : Option EdgeOptions) : MapOp C J Unit := do
  let s ← Op.get
  canonicalNode env (s.heap ref).source "add-edge source"
  canonicalNode env (s.heap ref).target "add-edge target"
  let options ← authoredOptions env (s.heap ref) edgeOpts
  Op.modify (State.placeEdge ref options)

theorem canonicalNode_ok {node : Node} (h : env.hasKeyLoaderForKey node.key = true)
    (context : String) (s : State C J) : canonicalNode env node context s = (.ok (), s) :=
  require_run h _ s

theorem canonicalNode_error {node : Node} (h : ¬ env.hasKeyLoaderForKey node.key = true)
    (context : String) (s : State C J) : canonicalNode env node context s =
      (.error ("GraphMap " ++ context ++ " node key is not loader-backed: " ++ node.key), s) := by
  rw [canonicalNode, require, if_neg h]
  rfl

theorem addNodeWith_stored {recompute : Key → MapOp C J Unit} {s : State C J} (h : Consistent s)
    {node : Node} (hnode : node ∈ s.nodes)
    (hbacked : env.hasKeyLoaderForKey node.key = true) :
    addNodeWith recompute env node s = (.ok node, s) := by
  unfold addNodeWith
  rw [get_bind_run, bind_ok (require_run (.inl hnode) _ s), bind_ok (canonicalNode_ok hbacked _ s),
    h.lookup_eq hnode]
  simp

theorem setEdge_self (s : State C J) (ref : Nat) : s.setEdge ref (s.heap ref) = s := by
  have hheap : (fun other => if other = ref then s.heap ref else s.heap other) = s.heap := by
    funext other
    split_ifs with hother
    · rw [hother]
    · rfl
  rw [State.setEdge, hheap]

theorem addEdgeWith_stored {recompute : Key → MapOp C J Unit} {s : State C J} (h : Consistent s)
    {ref : Nat} (hsource : (s.heap ref).source ∈ s.nodes) (htarget : (s.heap ref).target ∈ s.nodes)
    (edgeOpts : Option EdgeOptions) :
    addEdgeWith (addNodeWith recompute env) env ref edgeOpts s = placeStored env ref edgeOpts s := by
  have hsame : s.setEdge ref { s.heap ref with
      source := (s.heap ref).source, target := (s.heap ref).target } = s := setEdge_self s ref
  unfold addEdgeWith placeStored
  by_cases hs : env.hasKeyLoaderForKey (s.heap ref).source.key = true
  · rw [get_bind_run, get_bind_run, bind_ok (canonicalNode_ok hs _ s),
      bind_ok (canonicalNode_ok hs _ s), get_bind_run]
    by_cases ht : env.hasKeyLoaderForKey (s.heap ref).target.key = true
    · rw [bind_ok (canonicalNode_ok ht _ s), bind_ok (canonicalNode_ok ht _ s), get_bind_run,
        bind_ok (addNodeWith_stored h hsource hs), get_bind_run,
        bind_ok (addNodeWith_stored h htarget ht), modify_bind_run, hsame, get_bind_run]
    · rw [bind_error (canonicalNode_error ht _ s), bind_error (canonicalNode_error ht _ s)]
  · rw [get_bind_run, get_bind_run, bind_error (canonicalNode_error hs _ s),
      bind_error (canonicalNode_error hs _ s)]

/-! ## New edges -/

theorem sameGraph_allocate {s : State C J} (h : Consistent s) (edge : Edge C) :
    SameGraph s (s.allocate edge) where
  nodes := rfl
  heap _ href := if_neg (Nat.ne_of_lt (h.allocated _ href))
  nextRef := Nat.le_succ _
  edges := rfl
  edgeMap := rfl
  derivedEdgeKeys := rfl

theorem heap_allocate (s : State C J) (edge : Edge C) :
    (s.allocate edge).heap s.nextRef = edge := if_pos rfl

theorem Consistent.nextRef_notMem {s : State C J} (h : Consistent s) : s.nextRef ∉ s.edges :=
  fun href => Nat.lt_irrefl _ (h.allocated _ href)

theorem Kept.allocate {s : State C J} (h : Kept env good selecting s) (edge : Edge C) :
    Kept env good selecting (s.allocate edge) :=
  h.same (sameGraph_allocate h.consistent edge) rfl rfl

theorem placeable_new {s : State C J} {ref : Nat} {options : Option EdgeOptions}
    (href : ref ∉ s.edges) (hopts : (s.heap ref).opts = none) : Placeable s ref options :=
  ⟨fun hmem => absurd hmem href, .inl (by rw [hopts]; rfl)⟩

/-- A new edge between stored nodes, under whatever options its author gives. -/
theorem kept_placeNew {s : State C J} (h : Kept env good selecting s) {edge : Edge C}
    (hsource : edge.source ∈ s.nodes) (htarget : edge.target ∈ s.nodes) (hopts : edge.opts = none)
    (options : Option EdgeOptions) :
    Kept env good selecting ((s.allocate edge).placeEdge s.nextRef options) := by
  refine kept_placeEdge (h.allocate edge) (Nat.lt_succ_self _) ?_ (placeable_new ?_ ?_)
  · rw [heap_allocate]
    exact ⟨hsource, htarget⟩
  · exact h.consistent.nextRef_notMem
  · rw [heap_allocate]
    exact hopts

variable {objects : List (Nat × Edge C)} {kept : List Node} {free : List String} {rest : Rest J}

theorem Aside.allocate {s : State C J} (h : Aside objects kept free rest s) (edge : Edge C) :
    Aside objects kept free rest (s.allocate edge) where
  objects object hobject := by
    obtain ⟨hallocated, hunlisted, hsame⟩ := h.objects object hobject
    exact ⟨Nat.lt_succ_of_lt hallocated, hunlisted,
      (if_neg (Nat.ne_of_lt hallocated)).trans hsame⟩
  kept := h.kept
  free := h.free
  rest := h.rest

theorem mem_edges_placeEdge {s : State C J} {ref other : Nat} {options : Option EdgeOptions}
    (h : other ∈ (s.placeEdge ref options).edges) : other = ref ∨ other ∈ s.edges := by
  simp only [State.placeEdge] at h
  split at h
  · split_ifs at h
    · exact .inr h
    · obtain ⟨old, hold, hnew⟩ := List.mem_map.1 h
      split_ifs at hnew
      · exact .inl hnew.symm
      · exact .inr (hnew ▸ hold)
  · rcases List.mem_append.1 h with hold | hnew
    · exact .inr hold
    · exact .inl (List.mem_singleton.1 hnew)

theorem nodes_placeEdge (s : State C J) (ref : Nat) (options : Option EdgeOptions) :
    (s.placeEdge ref options).nodes = s.nodes := by
  simp only [State.placeEdge]
  split
  · split_ifs <;> rfl
  · rfl

theorem nextRef_placeEdge (s : State C J) (ref : Nat) (options : Option EdgeOptions) :
    (s.placeEdge ref options).nextRef = s.nextRef := by
  simp only [State.placeEdge]
  split
  · split_ifs <;> rfl
  · rfl

theorem heap_placeEdge_of_ne (s : State C J) {ref other : Nat} (hother : other ≠ ref)
    (options : Option EdgeOptions) : (s.placeEdge ref options).heap other = s.heap other := by
  simp only [State.placeEdge]
  split
  · split_ifs
    · rfl
    · exact if_neg hother
  · exact if_neg hother

theorem edgeMap_placeEdge_of_ne (s : State C J) {ref : Nat} {options : Option EdgeOptions}
    {key : String} (hkey : key ≠ edgeKey (s.heap ref) options) :
    (s.placeEdge ref options).edgeMap key = s.edgeMap key := by
  simp only [State.placeEdge]
  split
  · split_ifs
    · rfl
    · exact if_neg hkey
  · exact if_neg hkey

theorem rest_placeEdge (s : State C J) (ref : Nat) (options : Option EdgeOptions) :
    (s.placeEdge ref options).rest = s.rest := by
  simp only [State.placeEdge]
  split
  · split_ifs <;> rfl
  · rfl

theorem Aside.placeEdge {s : State C J} {ref : Nat} {options : Option EdgeOptions}
    (h : Aside objects kept free rest s) (href : ∀ object ∈ objects, object.1 ≠ ref)
    (hfree : edgeKey (s.heap ref) options ∉ free) :
    Aside objects kept free rest (s.placeEdge ref options) where
  objects object hobject := by
    obtain ⟨hallocated, hunlisted, hsame⟩ := h.objects object hobject
    have hne := href object hobject
    refine ⟨?_, fun hmem => ?_, ?_⟩
    · rw [nextRef_placeEdge]
      exact hallocated
    · rcases mem_edges_placeEdge hmem with heq | hold
      · exact hne heq
      · exact hunlisted hold
    · rw [heap_placeEdge_of_ne s hne]
      exact hsame
  kept := by
    rw [nodes_placeEdge]
    exact h.kept
  free key hkey := by
    rw [edgeMap_placeEdge_of_ne s fun hsame => hfree (hsame ▸ hkey)]
    exact h.free key hkey
  rest := by
    rw [rest_placeEdge]
    exact h.rest

/-! ## Linking -/

def linkEdge (env : Env C J) (link : Link) (source target : Node) : Edge C :=
  ⟨source, target, link.label, some env.linkColor, none⟩

def linkOptions (id : String) : Option EdgeOptions := some { fromLinkEntity := some id }

def State.link (env : Env C J) (link : Link) (source target : Node) (s : State C J) : State C J :=
  (s.allocate (linkEdge env link source target)).placeEdge s.nextRef (linkOptions link.id)

theorem edgeKey_linkEdge (link : Link) (source target : Node) :
    edgeKey (linkEdge env link source target) (linkOptions link.id) =
      linkEdgeKey source.key target.key link.id := rfl

theorem joinLinked_run {recompute : Key → MapOp C J Unit} {s : State C J} (h : Consistent s)
    (link : Link) {source target : Node} (hsource : source ∈ s.nodes) (htarget : target ∈ s.nodes) :
    joinLinked (addEdgeWith (addNodeWith recompute env) env) env link source target s =
      placeStored env s.nextRef (linkOptions link.id)
        (s.allocate (linkEdge env link source target)) := by
  have hheap : (s.allocate (linkEdge env link source target)).heap s.nextRef =
      linkEdge env link source target := heap_allocate s _
  have hrun : joinLinked (addEdgeWith (addNodeWith recompute env) env) env link source target s =
      addEdgeWith (addNodeWith recompute env) env s.nextRef (linkOptions link.id)
        (s.allocate (linkEdge env link source target)) := rfl
  rw [hrun]
  refine addEdgeWith_stored (h.same (sameGraph_allocate h _)) ?_ ?_ _
  · rw [hheap]
    exact hsource
  · rw [hheap]
    exact htarget

theorem authoredOptions_given {edge : Edge C} {edgeOpts : Option EdgeOptions}
    (h : derivedEdgeId edge edgeOpts ≠ none) :
    authoredOptions env edge edgeOpts = (pure edgeOpts : MapOp C J _) := if_neg h

theorem placeStored_ok {s : State C J} {ref : Nat} {edgeOpts : Option EdgeOptions}
    (hsource : env.hasKeyLoaderForKey (s.heap ref).source.key = true)
    (htarget : env.hasKeyLoaderForKey (s.heap ref).target.key = true)
    (hid : derivedEdgeId (s.heap ref) edgeOpts ≠ none) :
    placeStored env ref edgeOpts s = (.ok (), s.placeEdge ref edgeOpts) := by
  unfold placeStored
  rw [get_bind_run, bind_ok (canonicalNode_ok hsource _ _), bind_ok (canonicalNode_ok htarget _ _),
    authoredOptions_given hid]
  rfl

theorem placeStored_error {s : State C J} {ref : Nat} {edgeOpts : Option EdgeOptions}
    (h : ¬ (env.hasKeyLoaderForKey (s.heap ref).source.key = true ∧
      env.hasKeyLoaderForKey (s.heap ref).target.key = true)) :
    ∃ message, placeStored env ref edgeOpts s = (.error message, s) := by
  unfold placeStored
  rw [get_bind_run]
  by_cases hsource : env.hasKeyLoaderForKey (s.heap ref).source.key = true
  · rw [bind_ok (canonicalNode_ok hsource _ _)]
    exact ⟨_, bind_error (canonicalNode_error (fun htarget => h ⟨hsource, htarget⟩) _ _)⟩
  · exact ⟨_, bind_error (canonicalNode_error hsource _ _)⟩

theorem joinLinked_ok {recompute : Key → MapOp C J Unit} {s : State C J} (h : Consistent s)
    (link : Link) {source target : Node} (hsource : source ∈ s.nodes) (htarget : target ∈ s.nodes)
    (hbacked : env.hasKeyLoaderForKey source.key = true ∧
      env.hasKeyLoaderForKey target.key = true) :
    joinLinked (addEdgeWith (addNodeWith recompute env) env) env link source target s =
      (.ok (), s.link env link source target) := by
  have hheap : (s.allocate (linkEdge env link source target)).heap s.nextRef =
      linkEdge env link source target := heap_allocate s _
  rw [joinLinked_run h link hsource htarget]
  refine placeStored_ok ?_ ?_ ?_
  · rw [hheap]
    exact hbacked.1
  · rw [hheap]
    exact hbacked.2
  · rw [hheap]
    exact Option.some_ne_none link.id

theorem joinLinked_error {recompute : Key → MapOp C J Unit} {s : State C J} (h : Consistent s)
    (link : Link) {source target : Node} (hsource : source ∈ s.nodes) (htarget : target ∈ s.nodes)
    (hbacked : ¬ (env.hasKeyLoaderForKey source.key = true ∧
      env.hasKeyLoaderForKey target.key = true)) :
    ∃ message, joinLinked (addEdgeWith (addNodeWith recompute env) env) env link source target s =
      (.error message, s.allocate (linkEdge env link source target)) := by
  rw [joinLinked_run h link hsource htarget]
  refine placeStored_error ?_
  rw [heap_allocate]
  exact hbacked

theorem joinLinked_ensures (recompute : Key → MapOp C J Unit) (link : Link) {source target : Node}
    (hfree : linkEdgeKey source.key target.key link.id ∉ free) :
    Ensures (fun s => (Kept env good selecting s ∧ Aside objects kept free rest s) ∧
        source ∈ s.nodes ∧ target ∈ s.nodes)
      (joinLinked (addEdgeWith (addNodeWith recompute env) env) env link source target)
      (fun _ s => Kept env good selecting s ∧ Aside objects kept free rest s)
      (fun s => Kept env good selecting s ∧ ¬ good) := by
  rintro s ⟨⟨hkept, haside⟩, hsource, htarget⟩
  by_cases hbacked : env.hasKeyLoaderForKey source.key = true ∧
      env.hasKeyLoaderForKey target.key = true
  · rw [joinLinked_ok hkept.consistent link hsource htarget hbacked]
    refine ⟨fun a s' hrun => ?_, fun message s' hrun => absurd (Prod.mk.inj hrun).1 (by simp)⟩
    obtain rfl := (Prod.mk.inj hrun).2
    refine ⟨kept_placeNew hkept hsource htarget rfl _, (haside.allocate _).placeEdge ?_ ?_⟩
    · exact fun object hobject => Nat.ne_of_lt (haside.objects object hobject).1
    · rw [heap_allocate, edgeKey_linkEdge]
      exact hfree
  · obtain ⟨message, hrun⟩ := joinLinked_error hkept.consistent link hsource htarget hbacked
    rw [hrun]
    refine ⟨fun a s' hrun => absurd (Prod.mk.inj hrun).1 (by simp), fun other s' hrun => ?_⟩
    obtain rfl := (Prod.mk.inj hrun).2
    exact ⟨hkept.allocate _, fun hgood =>
      hbacked ⟨hkept.backed hgood _ hsource, hkept.backed hgood _ htarget⟩⟩

/-- No link of the key is joined under one of the free keys. -/
def Spares (env : Env C J) (free : List String) (nodeKey : Key) : Prop :=
  ∀ links, env.findEntitiesForKey nodeKey = .ok links → ∀ link ∈ links, ∀ source target,
    env.resolveKey link.sourceKey = .ok source → env.resolveKey link.targetKey = .ok target →
      linkEdgeKey source target link.id ∉ free

theorem recomputeLink_ensures (recompute : Key → MapOp C J Unit) {link : Link}
    (hspares : ∀ source target, env.resolveKey link.sourceKey = .ok source →
      env.resolveKey link.targetKey = .ok target → linkEdgeKey source target link.id ∉ free)
    (hgood : good → (∃ source, env.resolveKey link.sourceKey = .ok source) ∧
      ∃ target, env.resolveKey link.targetKey = .ok target) :
    Ensures (fun s => Kept env good selecting s ∧ Aside objects kept free rest s)
      (recomputeLink (addEdgeWith (addNodeWith recompute env) env) env link)
      (fun _ s => Kept env good selecting s ∧ Aside objects kept free rest s)
      (fun s => Kept env good selecting s ∧ ¬ good) := by
  refine ensures_ofExcept_bind (fun source hsource => ?_) ?_
  · refine ensures_ofExcept_bind (fun target htarget => ensures_get fun s hs => ?_) ?_
    · split
      · next sourceNode targetNode hsourceNode htargetNode =>
        obtain ⟨hsourceMem, rfl⟩ := lookup_mem hsourceNode
        obtain ⟨htargetMem, rfl⟩ := lookup_mem htargetNode
        split_ifs
        · refine (joinLinked_ensures recompute link (hspares _ _ hsource htarget)).weaken ?_
            (fun _ _ h => h) fun _ h => h
          rintro _ rfl
          exact ⟨hs, hsourceMem, htargetMem⟩
        · exact ensures_pure fun _ h => h ▸ hs
      · exact ensures_pure fun _ h => h ▸ hs
    · intro message herror s hs
      refine ⟨hs.1, fun h => ?_⟩
      obtain ⟨target, htarget⟩ := (hgood h).2
      rw [herror] at htarget
      cases htarget
  · intro message herror s hs
    refine ⟨hs.1, fun h => ?_⟩
    obtain ⟨source, hsource⟩ := (hgood h).1
    rw [herror] at hsource
    cases hsource

theorem recomputeWith_ensures (recompute : Key → MapOp C J Unit) (hgood : good → env.Answers)
    {nodeKey : Key} (hspares : Spares env free nodeKey) :
    Ensures (fun s => Kept env good selecting s ∧ Aside objects kept free rest s)
      (recomputeWith (addEdgeWith (addNodeWith recompute env) env) env nodeKey)
      (fun _ s => Kept env good selecting s ∧ Aside objects kept free rest s)
      (fun s => Kept env good selecting s ∧ ¬ good) := by
  refine ensures_ofExcept_bind (fun links hlinks => ensures_forEach_inv fun link hlink =>
    recomputeLink_ensures recompute (hspares links hlinks link hlink) fun h => ?_) ?_
  · obtain ⟨found, hfound, hresolves⟩ := (hgood h).finds nodeKey
    rw [hlinks] at hfound
    exact hresolves link (Except.ok.inj hfound ▸ hlink)
  · intro message herror s hs
    refine ⟨hs.1, fun h => ?_⟩
    obtain ⟨found, hfound, -⟩ := (hgood h).finds nodeKey
    rw [herror] at hfound
    cases hfound

theorem spares_nil (env : Env C J) (nodeKey : Key) : Spares env [] nodeKey :=
  fun _ _ _ _ _ _ _ _ => List.not_mem_nil

theorem aside_nil (s : State C J) : Aside [] [] [] s.rest s :=
  ⟨fun _ h => absurd h List.not_mem_nil, fun _ h => absurd h List.not_mem_nil,
    fun _ h => absurd h List.not_mem_nil, rfl⟩

theorem Consistent.bare {s : State C J} (h : Consistent s) : Kept env False False s :=
  ⟨h, False.elim, False.elim⟩

theorem recomputeLink_run {s : State C J} (h : Consistent s) (link : Link)
    (first second : Key → MapOp C J Unit) :
    recomputeLink (addEdgeWith (addNodeWith first env) env) env link s =
      recomputeLink (addEdgeWith (addNodeWith second env) env) env link s := by
  unfold recomputeLink
  cases hsource : env.resolveKey link.sourceKey with
  | error message => rw [ofExcept_error_bind, ofExcept_error_bind]
  | ok source =>
    cases htarget : env.resolveKey link.targetKey with
    | error message => rw [ofExcept_ok_bind, ofExcept_ok_bind, ofExcept_error_bind,
        ofExcept_error_bind]
    | ok target =>
      rw [ofExcept_ok_bind, ofExcept_ok_bind, ofExcept_ok_bind, ofExcept_ok_bind, get_bind_run,
        get_bind_run]
      cases hsourceNode : s.lookup source with
      | none => rfl
      | some sourceNode =>
        cases htargetNode : s.lookup target with
        | none => rfl
        | some targetNode =>
          dsimp only
          split_ifs
          · rw [joinLinked_run h link (lookup_mem hsourceNode).1 (lookup_mem htargetNode).1,
              joinLinked_run h link (lookup_mem hsourceNode).1 (lookup_mem htargetNode).1]
          · rfl

/-- Linking a node is what it would be if edges were added by `add-edge` itself. -/
theorem recomputeLinkEdgesForNode_run {s : State C J} (h : Consistent s) (key : Key) :
    recomputeLinkEdgesForNode env key s = recomputeWith (addEdge env) env key s := by
  unfold recomputeLinkEdgesForNode recomputeWith
  cases hlinks : env.findEntitiesForKey key with
  | error message => rw [ofExcept_error_bind, ofExcept_error_bind]
  | ok links =>
    rw [ofExcept_ok_bind, ofExcept_ok_bind]
    refine forEach_congr (I := Consistent) (fun link _ => ?_) (fun link _ s hs => ?_) h
    · refine ensures_framed State.rest fun rest => ?_
      have hlink : Ensures (fun s => Kept env False False s ∧ Aside [] [] [] rest s)
          (recomputeLink (addStoredEdge env) env link)
          (fun _ s => Kept env False False s ∧ Aside [] [] [] rest s)
          (fun s => Kept env False False s ∧ ¬ False) :=
        recomputeLink_ensures _ (fun _ _ _ _ => List.not_mem_nil) False.elim
      exact hlink.weaken (fun s hs => ⟨hs.1.bare, hs.2 ▸ aside_nil s⟩)
        (fun _ _ hs => hs.1.consistent) fun _ _ => trivial
    · exact recomputeLink_run hs link _ _

/-! ## Adding nodes and edges -/

theorem Kept.replaceNode {s : State C J} (h : Kept env good selecting s) {existing node : Node}
    (hexisting : existing ∈ s.nodes) (hkey : existing.key = node.key) :
    Kept env good selecting (s.replaceNode existing node) where
  consistent := h.consistent.replaceNode hexisting hkey
  selected hselecting := (h.selected hselecting).of_loaded (fun key hloaded => by
    rw [loaded_replaceNode]
    exact hloaded) rfl rfl
  backed hgood other hother := by
    have hotherkey := List.mem_map_of_mem (f := Node.key) hother
    rw [keys_replaceNode] at hotherkey
    obtain ⟨old, hold, hsame⟩ := List.mem_map.1 hotherkey
    rw [← hsame]
    exact h.backed hgood old hold

theorem Aside.replaceNode {s : State C J} (h : Aside objects kept free rest s) {existing node : Node}
    (hexisting : existing ∈ s.nodes) (hkey : existing.key = node.key)
    (hkept : ∀ other ∈ kept, other.key = node.key → other = node) :
    Aside objects (node :: kept) free rest (s.replaceNode existing node) where
  objects object hobject := by
    obtain ⟨hallocated, hunlisted, hsame⟩ := h.objects object hobject
    exact ⟨hallocated, hunlisted, (if_neg hunlisted).trans hsame⟩
  kept := by
    refine List.forall_mem_cons.2 ⟨?_, fun other hother => ?_⟩
    · have hmem := mem_replaceNode existing node hexisting
      rwa [if_pos hkey] at hmem
    · have hmem := mem_replaceNode existing node (h.kept other hother)
      split_ifs at hmem with hsame
      · exact hkept other hother hsame ▸ hmem
      · exact hmem
  free := h.free
  rest := h.rest

theorem loaded_storeNode {s : State C J} {node : Node} {key : Key} (h : s.loaded key = true) :
    ({ s with nodes := s.nodes ++ [node] } : State C J).loaded key = true := by
  rw [loaded_iff] at h ⊢
  rw [List.map_append]
  exact List.mem_append_left _ h

theorem Kept.storeNode {s : State C J} (h : Kept env good selecting s) {node : Node}
    (hnew : s.lookup node.key = none) (hnode : good → env.hasKeyLoaderForKey node.key = true) :
    Kept env good selecting { s with nodes := s.nodes ++ [node] } where
  consistent := h.consistent.storeNode hnew
  selected hselecting := (h.selected hselecting).of_loaded (fun _ => loaded_storeNode) rfl rfl
  backed hgood other hother := by
    rcases List.mem_append.1 hother with hold | hlast
    · exact h.backed hgood other hold
    · rw [List.mem_singleton.1 hlast]
      exact hnode hgood

theorem addNode_ensures (objects : List (Nat × Edge C)) (kept : List Node) (rest : Rest J)
    (hgood : good → env.Answers) {node : Node}
    (hspares : Spares env free node.key) (hkept : ∀ other ∈ kept, other.key = node.key → other = node)
    (hnode : good → env.hasKeyLoaderForKey node.key = true ∧ env.mountedElsewhere node = false) :
    Ensures (fun s => Kept env good selecting s ∧ Aside objects kept free rest s) (addNode env node)
      (fun added s => added = node ∧ Kept env good selecting s ∧
        Aside objects (node :: kept) free rest s)
      (fun s => Kept env good selecting s ∧ ¬ good) := by
  refine ensures_get fun s hs => ?_
  refine ensures_require_bind (fun _ => ?_) fun hmounted s' hs' => ?_
  · refine ensures_require_bind (fun hbacked => ?_) fun hbacked s' hs' => ?_
    · split
      · next existing hexisting =>
        obtain ⟨hmem, hkey⟩ := lookup_mem hexisting
        split_ifs with hsame
        · subst hsame
          refine ensures_pure fun s' hs' => ?_
          subst hs'
          exact ⟨rfl, hs.1, hs.2.objects, List.forall_mem_cons.2 ⟨hmem, hs.2.kept⟩, hs.2.free,
            hs.2.rest⟩
        · refine ensures_modify_bind (fun s => Kept env good selecting s ∧
            Aside objects (node :: kept) free rest s) ?_ (ensures_pure fun _ h => ⟨rfl, h⟩)
          rintro _ rfl
          exact ⟨hs.1.replaceNode hmem hkey, hs.2.replaceNode hmem hkey hkept⟩
      · next hnew =>
        refine ensures_modify_bind (fun s => Kept env good selecting s ∧
          Aside objects (node :: kept) free rest s) ?_ ?_
        · rintro _ rfl
          refine ⟨hs.1.storeNode hnew fun h => (hnode h).1, hs.2.objects, ?_, hs.2.free, hs.2.rest⟩
          refine List.forall_mem_cons.2 ⟨List.mem_append_right _ (List.mem_singleton.2 rfl), ?_⟩
          exact fun other hother => List.mem_append_left _ (hs.2.kept other hother)
        · exact ensures_bind (recomputeWith_ensures _ hgood hspares) fun _ =>
            ensures_pure fun _ h => ⟨rfl, h⟩
    · subst hs'
      exact ⟨hs.1, fun h => hbacked (hnode h).1⟩
  · subst hs'
    exact ⟨hs.1, fun h => hmounted (.inr (hnode h).2)⟩

/-- An edge without origin gets the options of its author, if there are any. -/
def Chosen (env : Env C J) (edge : Edge C) (edgeOpts options : Option EdgeOptions) : Prop :=
  derivedEdgeId edge edgeOpts = none ∧ (∃ authored,
    env.authorDomainEdge edge.source edge.target edgeOpts = .ok authored ∧
      options = authored.or edgeOpts) ∨
  derivedEdgeId edge edgeOpts ≠ none ∧ options = edgeOpts

theorem Chosen.given {edge : Edge C} {edgeOpts options : Option EdgeOptions}
    (h : Chosen env edge edgeOpts options) (hown : EdgeOptions.id edge.opts ≠ none) :
    options = edgeOpts := by
  rcases h with ⟨hid, -⟩ | ⟨-, hgiven⟩
  · rw [derivedEdgeId, Option.or_eq_none_iff] at hid
    exact absurd hid.2 hown
  · exact hgiven

theorem authoredOptions_bind_ensures {P : State C J → Prop} {edge : Edge C}
    {edgeOpts : Option EdgeOptions} {f : Option EdgeOptions → MapOp C J Unit}
    {Q : Unit → State C J → Prop} {E : State C J → Prop} (hgood : good → env.Answers)
    (hE : ∀ s, P s → ¬ good → E s)
    (h : ∀ options, Chosen env edge edgeOpts options → Ensures P (f options) Q E) :
    Ensures P (authoredOptions env edge edgeOpts >>= f) Q E := by
  unfold authoredOptions
  split_ifs with hid
  · refine ensures_bind (R := fun options s => P s ∧ Chosen env edge edgeOpts options) ?_
      fun options => ?_
    · refine ensures_ofExcept_bind (fun authored hauthored => ensures_pure fun s hs =>
        ⟨hs, .inl ⟨hid, authored, hauthored, rfl⟩⟩) fun message herror s hs => hE s hs fun hall => ?_
      obtain ⟨authored, hauthored⟩ := (hgood hall).authors edge.source edge.target edgeOpts
      rw [herror] at hauthored
      cases hauthored
    · intro s hs
      exact h options hs.2 s hs.1
  · exact h edgeOpts (.inr ⟨hid, rfl⟩)

/-- The end of `add-edge`: the endpoints are stored, the object is as it was. -/
theorem addEdge_place (hgood : good → env.Answers) {ref : Nat} {edge : Edge C}
    {edgeOpts : Option EdgeOptions} {target : Node}
    (hids : EdgeOptions.id edge.opts = none ∨ (EdgeOptions.id edgeOpts).isSome = true ∨
      edgeOpts = none ∧ edgeKey edge none ∈ free) :
    Ensures (fun s => target = edge.target ∧ Kept env good selecting s ∧
        Aside [(ref, edge)] [edge.target, edge.source] free rest s)
      (do
        Op.modify fun s => s.setEdge ref { s.heap ref with source := edge.source, target := target }
        let options ← authoredOptions env ((← Op.get).heap ref) edgeOpts
        Op.modify (State.placeEdge ref options))
      (fun _ s => Kept env good selecting s ∧ s.rest = rest)
      (fun s => Kept env good selecting s ∧ ¬ good) := by
  refine ensures_modify_bind (fun s => Kept env good selecting s ∧
    Aside [(ref, edge)] [edge.target, edge.source] free rest s) ?_ (ensures_get fun s hs => ?_)
  · rintro s ⟨rfl, hkept, haside⟩
    have hheap := (haside.objects (ref, edge) List.mem_cons_self).2.2
    have hself : s.setEdge ref { s.heap ref with source := edge.source, target := edge.target } =
        s := by
      have hsame : { s.heap ref with source := edge.source, target := edge.target } =
          s.heap ref := by
        rw [hheap]
      rw [hsame]
      exact setEdge_self s ref
    rw [hself]
    exact ⟨hkept, haside⟩
  · obtain ⟨hallocated, hunlisted, hheap⟩ := hs.2.objects (ref, edge) List.mem_cons_self
    dsimp only at hallocated hunlisted hheap
    rw [hheap]
    refine authoredOptions_bind_ensures hgood ?_ fun options hoptions => ensures_modify ?_
    · rintro _ rfl hnot
      exact ⟨hs.1, hnot⟩
    · rintro _ rfl
      refine ⟨kept_placeEdge hs.1 hallocated ?_ ⟨fun hmem => absurd hmem hunlisted, ?_⟩,
        (rest_placeEdge _ _ _).trans hs.2.rest⟩
      · rw [hheap]
        exact ⟨hs.2.kept _ (by simp), hs.2.kept _ (by simp)⟩
      · rw [hheap]
        by_cases hown : EdgeOptions.id edge.opts = none
        · exact .inl hown
        · rw [hoptions.given hown]
          refine .inr ((hids.resolve_left hown).imp_right fun h => ⟨h.1, ?_⟩)
          rw [h.1]
          exact hs.2.free _ h.2

theorem addEdge_ensures (hgood : good → env.Answers) {ref : Nat} {edge : Edge C}
    {edgeOpts : Option EdgeOptions}
    (hsame : edge.source.key = edge.target.key → edge.source = edge.target)
    (hids : EdgeOptions.id edge.opts = none ∨ (EdgeOptions.id edgeOpts).isSome = true ∨
      edgeOpts = none ∧ edgeKey edge none ∈ free)
    (hspares : Spares env free edge.source.key ∧ Spares env free edge.target.key)
    (hnodes : good → ∀ node, node = edge.source ∨ node = edge.target →
      env.hasKeyLoaderForKey node.key = true ∧ env.mountedElsewhere node = false) :
    Ensures (fun s => Kept env good selecting s ∧ Aside [(ref, edge)] [] free rest s)
      (addEdge env ref edgeOpts) (fun _ s => Kept env good selecting s ∧ s.rest = rest)
      (fun s => Kept env good selecting s ∧ ¬ good) := by
  refine ensures_get fun s hs => ?_
  have hheap : s.heap ref = edge := (hs.2.objects (ref, edge) List.mem_cons_self).2.2
  rw [hheap]
  refine ensures_require_bind (fun hsource => ensures_get ?_) fun hsource s' hs' => ?_
  · rintro _ rfl
    rw [hheap]
    refine ensures_require_bind (fun htarget => ensures_get ?_) fun htarget s' hs' => ?_
    · rintro _ rfl
      rw [hheap]
      refine ensures_bind ((addNode_ensures [(ref, edge)] [] rest hgood hspares.1 (by simp)
        fun h => hnodes h _ (.inl rfl)).weaken (fun s' hs' => ?_) (fun _ _ h => h) fun _ h => h)
          fun source => ?_
      · subst hs'
        exact hs
      · refine ensures_get fun s₁ hs₁ => ?_
        obtain ⟨rfl, hkept₁, haside₁⟩ := hs₁
        rw [(haside₁.objects (ref, edge) List.mem_cons_self).2.2]
        refine ensures_bind ((addNode_ensures [(ref, edge)] [edge.source] rest hgood hspares.2
          (by simpa using hsame) fun h => hnodes h _ (.inr rfl)).weaken (fun s' hs' => ?_)
            (fun _ _ h => h) fun _ h => h) fun target => ?_
        · subst hs'
          exact ⟨hkept₁, haside₁⟩
        · exact addEdge_place hgood hids
    · subst hs'
      exact ⟨hs.1, fun h => htarget (hnodes h _ (.inr rfl)).1⟩
  · subst hs'
    exact ⟨hs.1, fun h => hsource (hnodes h _ (.inl rfl)).1⟩

end Space2.GraphMap
