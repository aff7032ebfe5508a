import Space2.Workflows.DefinitionStore

/-!
# Removing steps of a definition

Steps are removed one after the other, each together with the edges at it. A step that is named
again is missing by then, and the removal is refused. What is left of a decoded definition passes
every check of the decoder: its steps keep their own ids, and an edge that is left ends at steps
that are left.
-/
namespace Space2.Workflows
open Base Temporal ReferenceLifecycle

variable {definition candidate : StoredDefinition} {items : List Lua} {id other : String}

/-- One of the ids. -/
def named (stepIds : List String) (id : Option String) : Bool := stepIds.any (some · = id)

/-- The definition without the named steps and without the edges at them. -/
def StoredDefinition.without (definition : StoredDefinition) (stepIds : List String) :
    StoredDefinition :=
  { definition with
    steps := definition.steps.filter fun step => !named stepIds (childId step)
    edges := definition.edges.filter fun edge =>
      !named stepIds (textField "source-step-id" edge) &&
        !named stepIds (textField "target-step-id" edge) }

section Removing

theorem findById_isSome : (findById items id).isSome = true ↔ some id ∈ items.map childId := by
  simp [findById, List.find?_isSome]

theorem requireStep_isOk :
    (∃ step, requireStep definition id = .ok step) ↔ some id ∈ definition.steps.map childId := by
  rw [← findById_isSome, requireStep]
  cases findById definition.steps id with
  | none => simp
  | some step => simp

theorem mem_map_removeById :
    some other ∈ (removeById items id).map childId ↔ other ≠ id ∧ some other ∈ items.map childId := by
  simp only [removeById, List.mem_map, List.mem_filter]
  constructor
  · rintro ⟨item, ⟨hmem, hkept⟩, hid⟩
    refine ⟨?_, item, hmem, hid⟩
    rintro rfl
    simp [hid] at hkept
  · rintro ⟨hne, item, hmem, hid⟩
    exact ⟨item, ⟨hmem, by simp [hid, hne]⟩, hid⟩

theorem removeStep_eq_ok :
    removeStep ⟨true⟩ definition id = .ok candidate ↔
      some id ∈ definition.steps.map childId ∧ candidate = definition.without [id] := by
  have hwithout : definition.without [id] = { definition with
      steps := removeById definition.steps id
      edges := definition.edges.filter (!dependentEdge id ·) } := by
    unfold StoredDefinition.without removeById dependentEdge named
    simp [eq_comm]
  rw [hwithout, ← requireStep_isOk]
  unfold removeStep
  simp only [bind_eq_ok, ensure_eq_ok, pure_eq_ok, true_or, true_and, if_true]
  constructor
  · rintro ⟨step, hstep, -, rfl⟩
    exact ⟨⟨step, hstep⟩, rfl⟩
  · rintro ⟨⟨step, hstep⟩, rfl⟩
    exact ⟨step, hstep, (), rfl⟩

theorem named_cons (stepIds : List String) (found : Option String) :
    named (id :: stepIds) found = (named [id] found || named stepIds found) := by
  simp [named]

theorem without_cons (stepIds : List String) :
    definition.without (id :: stepIds) = (definition.without [id]).without stepIds := by
  unfold StoredDefinition.without
  dsimp only
  rw [List.filter_filter, List.filter_filter]
  congr 1
  · refine List.filter_congr fun step _ => ?_
    rw [named_cons, Bool.not_or, Bool.and_comm]
  · refine List.filter_congr fun edge _ => ?_
    rw [named_cons, named_cons stepIds (textField "target-step-id" edge)]
    cases named [id] (textField "source-step-id" edge) <;>
      cases named [id] (textField "target-step-id" edge) <;> simp

theorem mem_map_without :
    some other ∈ (definition.without [id]).steps.map childId ↔
      other ≠ id ∧ some other ∈ definition.steps.map childId := by
  have hsteps : (definition.without [id]).steps = removeById definition.steps id := by
    unfold StoredDefinition.without removeById named
    simp [eq_comm]
  rw [hsteps, mem_map_removeById]

/-- Distinct ids of steps are removed, any other list is refused. -/
theorem prepareStepRemoval_eq_ok {stepIds : List String} :
    prepareStepRemoval definition stepIds ⟨true⟩ = .ok candidate ↔
      stepIds.Nodup ∧ (∀ id ∈ stepIds, some id ∈ definition.steps.map childId) ∧
        candidate = definition.without stepIds := by
  unfold prepareStepRemoval
  induction stepIds generalizing definition with
  | nil =>
    have hnone : definition.without [] = definition := by
      simp [StoredDefinition.without, named]
    rw [List.foldlM_nil, pure_eq_ok, hnone]
    exact ⟨fun h => ⟨List.nodup_nil, nofun, h.symm⟩, fun h => h.2.2.symm⟩
  | cons id stepIds ih =>
    rw [List.foldlM_cons, bind_eq_ok, without_cons]
    simp only [removeStep_eq_ok, ih]
    constructor
    · rintro ⟨_, ⟨hid, rfl⟩, hnodup, hall, rfl⟩
      refine ⟨List.nodup_cons.mpr ⟨fun hmem => ?_, hnodup⟩, ?_, rfl⟩
      · exact (mem_map_without.mp (hall id hmem)).1 rfl
      · intro other hother
        rcases List.mem_cons.mp hother with rfl | hlater
        · exact hid
        · exact (mem_map_without.mp (hall other hlater)).2
    · rintro ⟨hnodup, hall, rfl⟩
      obtain ⟨hnew, hnodup⟩ := List.nodup_cons.mp hnodup
      refine ⟨_, ⟨hall id List.mem_cons_self, rfl⟩, hnodup, fun other hother => ?_, rfl⟩
      refine mem_map_without.mpr ⟨?_, hall other (List.mem_cons_of_mem id hother)⟩
      rintro rfl
      exact hnew hother

end Removing

section Checks

theorem requireRecordId_eq_ok {value : Option Lua} :
    requireRecordId value = .ok id ↔ value = some (.string id) ∧ ValidId id := by
  unfold requireRecordId
  split
  · next text =>
    rw [requireId_eq_ok]
    constructor
    · rintro ⟨hvalid, rfl⟩
      exact ⟨rfl, hvalid⟩
    · rintro ⟨heq, hvalid⟩
      obtain rfl := Lua.string.inj (Option.some.inj heq)
      exact ⟨hvalid, rfl⟩
  · next hother =>
    refine ⟨nofun, ?_⟩
    rintro ⟨rfl, -⟩
    exact absurd rfl (hother id)

theorem requireRecordId_field {child : Lua} :
    requireRecordId (child.field "id") = .ok id ↔ childId child = some id ∧ ValidId id := by
  rw [requireRecordId_eq_ok, childId, textField]
  refine and_congr_left fun _ => ?_
  split
  · next text htext => rw [htext, Option.some.injEq, Option.some.injEq, Lua.string.injEq]
  · next hother => exact ⟨fun h => absurd h (hother id), nofun⟩

/-- The ids that the loop has seen are those of the steps, each once. -/
theorem validateSteps_filter {ids all : List String} {p : String → Bool}
    (h : validateSteps ids items = .ok all) :
    validateSteps (ids.filter p) (items.filter fun step => (childId step).any p) =
      .ok (all.filter p) := by
  induction items generalizing ids with
  | nil =>
    obtain rfl := Except.ok.inj h
    rfl
  | cons step rest ih =>
    unfold validateSteps at h
    simp only [bind_eq_ok, ensure_eq_ok, requireRecordId_field] at h
    obtain ⟨_, hvalid, id, ⟨hid, hname⟩, -, hnew, hrest⟩ := h
    have hlater := ih hrest
    rw [List.filter_append] at hlater
    cases hp : p id with
    | false =>
      rw [List.filter_cons_of_neg (by simp [hid, hp])]
      simpa [hp] using hlater
    | true =>
      rw [List.filter_cons_of_pos (by simp [hid, hp])]
      unfold validateSteps
      simp only [bind_eq_ok, ensure_eq_ok, requireRecordId_field]
      refine ⟨_, hvalid, id, ⟨hid, hname⟩, (), fun hmem => hnew (List.mem_filter.mp hmem).1, ?_⟩
      simpa [hp] using hlater

theorem exists_childId {ids all : List String} (h : validateSteps ids items = .ok all) :
    ∀ step ∈ items, ∃ id, childId step = some id := by
  induction items generalizing ids with
  | nil => exact nofun
  | cons step rest ih =>
    unfold validateSteps at h
    simp only [bind_eq_ok, ensure_eq_ok, requireRecordId_field] at h
    obtain ⟨-, -, id, ⟨hid, -⟩, -, -, hrest⟩ := h
    intro other hother
    rcases List.mem_cons.mp hother with rfl | hlater
    · exact ⟨id, hid⟩
    · exact ih hrest other hlater

/-- An edge that ends at members of a list passes over that list. -/
theorem validatePersistedEdge_narrow {ids kept : List String} {edge : Lua}
    (h : validatePersistedEdge ids edge = .ok ())
    (hsource : ∀ source ∈ ids, textField "source-step-id" edge = some source → source ∈ kept)
    (htarget : ∀ target ∈ ids, textField "target-step-id" edge = some target → target ∈ kept) :
    validatePersistedEdge kept edge = .ok () := by
  have hfield : ∀ {key : String} {value : Option Lua} {name : String},
      recordField edge key "string" = .ok value → requireRecordId value = .ok name →
      textField key edge = some name := by
    intro key value name hvalue hname
    obtain ⟨rfl, -⟩ := requireRecordId_eq_ok.mp hname
    unfold recordField at hvalue
    obtain ⟨-, -, hvalue⟩ := bind_eq_ok.mp hvalue
    unfold textField
    cases hheld : edge.field key with
    | none => simp [hheld] at hvalue
    | some held =>
      simp only [hheld, bind_eq_ok, pure_eq_ok, Option.some.injEq] at hvalue
      obtain ⟨-, -, rfl⟩ := hvalue
      rfl
  unfold validatePersistedEdge at h ⊢
  simp only [bind_eq_ok, ensure_eq_ok] at h ⊢
  obtain ⟨edgeId, hindex, edgeName, hedgeName, sourceValue, hsourceValue, source, hsourceName,
    targetValue, htargetValue, target, htargetName, _, hfields, hends⟩ := h
  refine ⟨edgeId, hindex, edgeName, hedgeName, sourceValue, hsourceValue, source, hsourceName,
    targetValue, htargetValue, target, htargetName, _, hfields, ?_, ?_⟩
  · exact hsource source hends.1 (hfield hsourceValue hsourceName)
  · exact htarget target hends.2 (hfield htargetValue htargetName)

end Checks

section Decoding

/-- What the decoder has checked of a definition. -/
structure StoredDefinition.WellFormed (definition : StoredDefinition) : Prop where
  id : ValidId definition.id
  name : definition.name.typeName = "string"
  description : definition.description.typeName = "string"
  version : ∃ version, definition.version = some version ∧ version.typeName = "number"
  status : definition.status.typeName = "string"
  parameters : definition.parameters.typeName = "table"
  children : ∃ ids, validateSteps [] definition.steps = .ok ids ∧
    ∀ edge ∈ definition.edges, validatePersistedEdge ids edge = .ok ()

variable {path : String → String} {data : Lua}

theorem checkFields_eq_ok {kind : String} {keys : List String} {u : Unit} :
    checkFields data kind keys = .ok u ↔ ∀ key ∈ keys, data.isTable = true ∧
      ∀ value ∈ data.field key, value.typeName = kind := by
  unfold checkFields
  rw [forM_eq_ok]
  refine forall₂_congr fun key _ => ?_
  unfold recordField
  cases hfield : data.field key with
  | none => simp
  | some value => simp

theorem typeName_getD {value? : Option Lua} {default : Lua} {kind : String}
    (h : ∀ value ∈ value?, value.typeName = kind) (hdefault : default.typeName = kind) :
    (value?.getD default).typeName = kind := by
  cases value? with
  | none => exact hdefault
  | some value => exact h value rfl

theorem StoredDefinition.WellFormed.of_decode (h : decodeDefinition path data = .ok definition) :
    definition.WellFormed := by
  unfold decodeDefinition at h
  simp only [bind_eq_ok, ensure_eq_ok, pure_eq_ok, checkFields_eq_ok, List.forall_mem_cons,
    List.not_mem_nil, false_implies, implies_true, and_true] at h
  obtain ⟨-, -, -, ⟨⟨-, hname⟩, ⟨-, hdescription⟩, -, hstatus⟩, -, ⟨-, hversion⟩, -,
    ⟨-, hparameters⟩, -, -, steps, -, -, -, edges, -, id, hid, createdAt, -, updatedAt, -, ids, hids,
    _, hedges, rfl⟩ := h
  exact {
    id := (requireRecordId_eq_ok.mp hid).2
    name := typeName_getD hname rfl
    description := typeName_getD hdescription rfl
    version := ⟨_, rfl, typeName_getD hversion rfl⟩
    status := typeName_getD hstatus rfl
    parameters := typeName_getD hparameters rfl
    children := ⟨ids, hids, forM_eq_ok.mp hedges⟩ }

/-- A checked definition is read again from what is written of it. -/
theorem StoredDefinition.WellFormed.decode_serialize (hwell : definition.WellFormed)
    (h : serializeDefinition path definition = .ok data) :
    decodeDefinition path data = .ok definition := by
  obtain ⟨version, hversion, hnumber⟩ := hwell.version
  obtain ⟨ids, hids, hedges⟩ := hwell.children
  unfold serializeDefinition at h
  simp only [bind_eq_ok, pure_eq_ok, requireId_eq_ok] at h
  obtain ⟨id, ⟨-, rfl⟩, createdAt, hcreated, updatedAt, hupdated, hdata⟩ := h
  have hcreated' := timestampToEpochSeconds_instantToTimestamp hcreated
  have hupdated' := timestampToEpochSeconds_instantToTimestamp hupdated
  have htable : ∀ {items : List Lua} {key : String}, data.field key = some (.table items []) →
      ∃ value, recordField data key "table" = .ok value ∧ requireArray value = .ok items := by
    intro items key hfield
    refine ⟨some (.table items []), ?_, rfl⟩
    unfold recordField
    rw [hfield]
    subst hdata
    rfl
  have hid : data.field "id" = some (.string definition.id) := by subst hdata; rfl
  have hname : data.field "name" = some definition.name := by subst hdata; rfl
  have hdescription : data.field "description" = some definition.description := by subst hdata; rfl
  have hstatus : data.field "status" = some definition.status := by subst hdata; rfl
  have hparameters : data.field "parameters" = some definition.parameters := by subst hdata; rfl
  have hcreatedAt : data.field "created-at" = some createdAt := by subst hdata; rfl
  have hupdatedAt : data.field "updated-at" = some updatedAt := by subst hdata; rfl
  have hversionAt : data.field "version" = some version := by
    subst hdata
    rw [hversion]
    rfl
  have hrecord : data.isTable = true := by subst hdata; rfl
  obtain ⟨steps, hsteps, hstepItems⟩ := @htable definition.steps "steps" (by subst hdata; rfl)
  obtain ⟨edges, hedgesAt, hedgeItems⟩ := @htable definition.edges "edges" (by subst hdata; rfl)
  unfold decodeDefinition
  simp only [bind_eq_ok, ensure_eq_ok, pure_eq_ok, checkFields_eq_ok, List.forall_mem_cons,
    List.not_mem_nil, false_implies, implies_true, and_true, hname, hdescription, hstatus,
    hparameters, hversionAt, Option.mem_def, Option.some.injEq, forall_eq', Option.getD_some]
  refine ⟨(), hrecord, (), ⟨⟨hrecord, hwell.name⟩, ⟨hrecord, hwell.description⟩, hrecord, hwell.status⟩,
    (), ⟨hrecord, hnumber⟩, (), ⟨hrecord, hwell.parameters⟩, steps, hsteps, _, hstepItems, edges, hedgesAt,
    _, hedgeItems, definition.id, requireRecordId_eq_ok.mpr ⟨hid, hwell.id⟩, definition.createdAt, ?_,
    definition.updatedAt, ?_, ids, hids, (), forM_eq_ok.mpr hedges, ?_⟩
  · rw [hcreatedAt]
    exact hcreated'
  · rw [hupdatedAt]
    exact hupdated'
  · rw [← hversion]

/-- Removing steps keeps what the decoder has checked. -/
theorem StoredDefinition.WellFormed.without (hwell : definition.WellFormed) (stepIds : List String) :
    (definition.without stepIds).WellFormed := by
  obtain ⟨ids, hids, hedges⟩ := hwell.children
  have hkept := validateSteps_filter (p := fun id => !named stepIds (some id)) hids
  have hsteps : (definition.without stepIds).steps = definition.steps.filter fun step =>
      (childId step).any fun id => !named stepIds (some id) := by
    refine List.filter_congr fun step hstep => ?_
    obtain ⟨id, hid⟩ := exists_childId hids step hstep
    rw [hid, Option.any_some]
  refine { hwell with children := ⟨_, hsteps ▸ hkept, fun edge hedge => ?_⟩ }
  obtain ⟨hmem, hends⟩ := List.mem_filter.mp hedge
  obtain ⟨hsource, htarget⟩ := Bool.and_eq_true_iff.mp hends
  refine validatePersistedEdge_narrow (hedges edge hmem) (fun source hmem heq => ?_)
    fun target hmem heq => ?_
  · exact List.mem_filter.mpr ⟨hmem, heq ▸ hsource⟩
  · exact List.mem_filter.mpr ⟨hmem, heq ▸ htarget⟩

theorem serializeDefinition_isOk (hwell : definition.WellFormed) :
    (∃ data, serializeDefinition path definition = .ok data) ↔
      InRange (definition.createdAt * nanosPerSecond) ∧
        InRange (definition.updatedAt * nanosPerSecond) := by
  rw [← instantToTimestamp_isOk (definitionField path definition.id "created-at"),
    ← instantToTimestamp_isOk (definitionField path definition.id "updated-at")]
  unfold serializeDefinition
  simp only [bind_eq_ok, pure_eq_ok, requireId_eq_ok]
  constructor
  · rintro ⟨data, id, ⟨-, rfl⟩, createdAt, hcreated, updatedAt, hupdated, -⟩
    exact ⟨⟨createdAt, hcreated⟩, updatedAt, hupdated⟩
  · rintro ⟨⟨createdAt, hcreated⟩, updatedAt, hupdated⟩
    exact ⟨_, definition.id, ⟨hwell.id, rfl⟩, createdAt, hcreated, updatedAt, hupdated, rfl⟩

/-- From a decoded definition the removal takes every list of distinct ids of its steps, and no
other list. It leaves the other steps and the edges between them in their order, and what is
written of the result is read again as the result. It can be written when both timestamps are
seconds of the range. -/
theorem step_removal_keeps_valid (hdecoded : decodeDefinition path data = .ok definition)
    (stepIds : List String) :
    (∀ candidate, prepareStepRemoval definition stepIds ⟨true⟩ = .ok candidate ↔
      stepIds.Nodup ∧ (∀ id ∈ stepIds, some id ∈ definition.steps.map childId) ∧
        candidate = definition.without stepIds) ∧
    (∀ payload, serializeDefinition path (definition.without stepIds) = .ok payload →
      decodeDefinition path payload = .ok (definition.without stepIds)) ∧
    ((∃ payload, serializeDefinition path (definition.without stepIds) = .ok payload) ↔
      InRange (definition.createdAt * nanosPerSecond) ∧
        InRange (definition.updatedAt * nanosPerSecond)) := by
  have hwell := (StoredDefinition.WellFormed.of_decode hdecoded).without stepIds
  exact ⟨fun candidate => prepareStepRemoval_eq_ok, fun payload => hwell.decode_serialize,
    serializeDefinition_isOk hwell⟩

end Decoding

/-! Three steps in a row. -/
section Pipeline

def pipelineStep (id : String) : Lua :=
  .record [("id", .string id), ("code-entity-id", .string "code")]

def pipelineEdge (id source target : String) : Lua :=
  .record [("id", .string id), ("source-step-id", .string source), ("target-step-id", .string target)]

def pipeline : StoredDefinition where
  id := "pipeline"
  name := .string ""
  description := .string ""
  version := some (.number (.finite 1))
  status := .string "draft"
  parameters := .empty
  steps := [pipelineStep "fetch", pipelineStep "clean", pipelineStep "store"]
  edges := [pipelineEdge "in" "fetch" "clean", pipelineEdge "out" "clean" "store",
    pipelineEdge "log" "fetch" "store"]
  createdAt := 0
  updatedAt := 0

def pipelineData : Lua :=
  .record [("id", .string "pipeline"), ("steps", .table pipeline.steps []),
    ("edges", .table pipeline.edges []), ("created-at", .number (.finite 0)),
    ("updated-at", .number (.finite 0))]

theorem decode_pipeline (path : String → String) : decodeDefinition path pipelineData = .ok pipeline := rfl

theorem step_removal_keeps_valid_pipeline :
    prepareStepRemoval pipeline ["clean"] ⟨true⟩ = .ok { pipeline with
      steps := [pipelineStep "fetch", pipelineStep "store"]
      edges := [pipelineEdge "log" "fetch" "store"] } := by
  refine ((step_removal_keeps_valid (decode_pipeline (· ++ ".json")) ["clean"]).1 _).mpr ⟨by decide, ?_, rfl⟩
  intro id hid
  rw [List.mem_singleton.mp hid]
  exact .tail _ (.head _)

/-- A step that is named twice. -/
theorem repeated_step_refused : ¬ ∀ (path : String → String) (data : Lua)
    (definition : StoredDefinition) (stepIds : List String),
    decodeDefinition path data = .ok definition →
    (∀ id ∈ stepIds, some id ∈ definition.steps.map childId) →
    ∃ candidate, prepareStepRemoval definition stepIds ⟨true⟩ = .ok candidate := by
  intro h
  obtain ⟨candidate, hcandidate⟩ := h (· ++ ".json") pipelineData pipeline ["clean", "clean"]
    (decode_pipeline _) (by
      intro id hid
      have hclean : id = "clean" := by simpa using hid
      rw [hclean]
      exact .tail _ (.head _))
  have hnodup := (prepareStepRemoval_eq_ok.mp hcandidate).1
  exact absurd hnodup (by decide)

end Pipeline

end Space2.Workflows
