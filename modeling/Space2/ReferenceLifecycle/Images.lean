import Space2.ReferenceLifecycle.Inventories

/-!
# What becomes of a record

`afterValue` says of one record what an operation makes of it, `none` for a record that goes, and
`newValues` are the records the operation creates. `Becomes` lists the shapes an image can have:
the references of a record change, and the time of its update, and nothing else.
-/

namespace Space2.ReferenceLifecycle
open Base

variable {M : Type}

section Images
variable [DecidableEq M] (operation : Operation) (targetOf : Key → Option Key)

/-- What becomes of an entity. -/
def entityAfter (value : Value M) : Option (Value M) :=
  if operation.retiring.contains value.address then none
  else if EntitiesOwner.changedValue operation value ≠ value then
    some (EntitiesOwner.touched operation (EntitiesOwner.changedValue operation value))
  else some value

def identityAfter (record : Identity M) : Option (Value M) :=
  if operation.retiring.contains (Value.identity record).address then none
  else if operation.kind = .morph ∧ some record.targetKey = operation.sourceKey then
    some (.identity { record with
      targetKey := operation.targetKey.getD "", updatedAt := operation.timestamp })
  else some (.identity record)

def workflowAfter (definition : WorkflowDefinition M) : Except String (Value M) :=
  if WorkflowsOwner.removedSteps operation definition = [] then return .workflow definition
  else do
    let candidate ← WorkflowsOwner.prepareStepRemoval true definition
      (WorkflowsOwner.removedSteps operation definition)
    return .workflow { candidate with updatedAt := operation.timestamp }

def afterValue (value : Value M) : Except String (Option (Value M)) :=
  match value with
  | .identity record => return identityAfter operation record
  | .workflow definition => some <$> workflowAfter operation definition
  | .world _ | .worldMetadata _ => some <$> WorldsOwner.candidate operation targetOf value
  | .step .. => return some value
  | value => return entityAfter operation value

end Images

section Created
variable (operation : Operation)

/-- The replacement a morph creates. -/
def replacements : List (Value M) :=
  match operation.kind, operation.replacement with
  | .morph, some replacement => [.code (EntitiesOwner.codeRecord replacement)]
  | _, _ => []

/-- The records an operation creates. -/
def newValues [EmptyCollection M] : List (Value M) :=
  replacements operation ++ operation.referencePlan.identities.map fun candidate =>
    .identity (IdentitiesOwner.reservedRecord candidate)

end Created

section Steps
variable {definition candidate : WorkflowDefinition M} {ids : List String}

def withoutSteps (ids : List String) (definition : WorkflowDefinition M) : WorkflowDefinition M :=
  { definition with
    steps := definition.steps.filter (·.id ∉ ids)
    edges := definition.edges.filter fun edge => !ids.any (WorkflowsOwner.dependentEdge · edge) }

theorem withoutSteps_nil : withoutSteps [] definition = definition := by simp [withoutSteps]

theorem withoutSteps_cons (id : String) :
    withoutSteps ids { definition with
      steps := definition.steps.filter (·.id ≠ id)
      edges := definition.edges.filter (!WorkflowsOwner.dependentEdge id ·) } =
      withoutSteps (id :: ids) definition := by
  simp only [withoutSteps, List.filter_filter, List.any_cons, Bool.not_or, List.mem_cons, not_or]
  congr 1
  · apply List.filter_congr
    intro step _
    by_cases h : step.id = id <;> simp [h]
  · apply List.filter_congr
    intro edge _
    exact Bool.and_comm _ _

/-- Steps go with the edges that depend on them, in whatever order they are removed. -/
theorem prepareStepRemoval_ok
    (h : WorkflowsOwner.prepareStepRemoval true definition ids = .ok candidate) :
    candidate = withoutSteps ids definition := by
  induction ids generalizing definition with
  | nil =>
    rw [withoutSteps_nil]
    exact (pure_eq_ok.mp h).symm
  | cons id ids ih =>
    simp only [WorkflowsOwner.prepareStepRemoval, List.foldlM_cons, bind_eq_ok,
      WorkflowsOwner.removeStep, ensure_eq_ok, pure_eq_ok, if_true] at h
    obtain ⟨_, ⟨-, -, -, -, rfl⟩, h⟩ := h
    rw [ih h, withoutSteps_cons]

end Steps

section Shapes
variable (operation : Operation) (targetOf : Key → Option Key)

/-- The target of an identity after the operation. -/
def identityTargetAfter (key : Key) : Key :=
  if operation.kind = .morph ∧ some key = operation.sourceKey then operation.targetKey.getD ""
  else key

inductive Becomes : Value M → Value M → Prop
  | string (entity : StringEntity) : Becomes (.string entity) (.string entity)
  | code (entity : Replacement) : Becomes (.code entity) (.code entity)
  | list (entity : ItemsRecord M) (time : Int) : Becomes (.list entity) (.list { entity with
      items := EntitiesOwner.transformedItems operation entity.items, updatedAt := time })
  | notebook (record : ItemsRecord M) (time : Int) :
      Becomes (.notebook record) (.notebook { record with
        items := EntitiesOwner.transformedItems operation record.items, updatedAt := time })
  | dict (entity : DictEntity M) (time : Int) : Becomes (.dict entity) (.dict { entity with
      items := EntitiesOwner.transformedSlots operation entity.items, updatedAt := time })
  | link (entity : LinkEntity M) : Becomes (.link entity) (.link { entity with
      sourceKey := rewrite operation entity.sourceKey
      targetKey := rewrite operation entity.targetKey })
  | identity (record : Identity M) (time : Int) :
      Becomes (.identity record) (.identity { record with
        targetKey := identityTargetAfter operation record.targetKey, updatedAt := time })
  | workflow (definition : WorkflowDefinition M) (time : Int) :
      Becomes (.workflow definition) (.workflow { withoutSteps
        (WorkflowsOwner.removedSteps operation definition) definition with updatedAt := time })
  | step (definitionId : String) (step : WorkflowStep M) :
      Becomes (.step definitionId step) (.step definitionId step)
  | world {world after : World M} (h : WorldsOwner.rewriteWorld operation targetOf world = .ok after) :
      Becomes (.world world) (.world after)
  | worldMetadata (record : WorldMetadata M) :
      Becomes (.worldMetadata record) (.worldMetadata { record with
        metadata := Graph.rewriteMetadata operation record.metadata })

variable {operation targetOf}

theorem Becomes.address_eq {value after : Value M} (h : Becomes operation targetOf value after) :
    after.address = value.address := by
  cases h with
  | world hworld =>
    simp only [WorldsOwner.rewriteWorld, bind_eq_ok, pure_eq_ok] at hworld
    obtain ⟨boards, -, rfl⟩ := hworld
    rfl
  | _ => rfl

theorem Becomes.id_eq {value after : Value M} (h : Becomes operation targetOf value after) :
    after.id = value.id ∧ after.domain = value.domain := by
  cases h with
  | world hworld =>
    simp only [WorldsOwner.rewriteWorld, bind_eq_ok, pure_eq_ok] at hworld
    obtain ⟨boards, -, rfl⟩ := hworld
    exact ⟨rfl, rfl⟩
  | _ => exact ⟨rfl, rfl⟩

theorem identityAfter_eq_some {record : Identity M} {after : Value M}
    (h : identityAfter operation record = some after) :
    (Value.identity record).address ∉ operation.retiring ∧ ∃ time,
      after = .identity { record with
        targetKey := identityTargetAfter operation record.targetKey, updatedAt := time } := by
  simp only [identityAfter, List.contains_iff_mem] at h
  split_ifs at h with hretiring hmorph
  · exact ⟨hretiring, _, by rw [identityTargetAfter, if_pos hmorph, ← Option.some.inj h]⟩
  · exact ⟨hretiring, record.updatedAt, by rw [identityTargetAfter, if_neg hmorph, ← Option.some.inj h]⟩

theorem workflowAfter_ok {definition : WorkflowDefinition M} {after : Value M}
    (h : workflowAfter operation definition = .ok after) : ∃ time,
      after = .workflow { withoutSteps (WorkflowsOwner.removedSteps operation definition) definition
        with updatedAt := time } := by
  rw [workflowAfter] at h
  split_ifs at h with hnone
  · exact ⟨definition.updatedAt, by rw [hnone, withoutSteps_nil, ← pure_eq_ok.mp h]⟩
  · obtain ⟨candidate, hcandidate, h⟩ := bind_eq_ok.mp h
    obtain rfl := prepareStepRemoval_ok hcandidate
    exact ⟨operation.timestamp, (pure_eq_ok.mp h).symm⟩

variable [DecidableEq M]

theorem entityAfter_eq_some {value after : Value M} (h : entityAfter operation value = some after) :
    value.address ∉ operation.retiring ∧ (after = EntitiesOwner.changedValue operation value ∨
      after = EntitiesOwner.touched operation (EntitiesOwner.changedValue operation value)) := by
  simp only [entityAfter, List.contains_iff_mem] at h
  split_ifs at h with hretiring hchanged
  · exact ⟨hretiring, .inr (Option.some.inj h).symm⟩
  · exact ⟨hretiring, .inl ((Option.some.inj h).symm.trans (not_not.mp hchanged).symm)⟩

/-- What stays of a record is the record with its references rewritten. -/
theorem becomes_of_after {value after : Value M}
    (h : afterValue operation targetOf value = .ok (some after)) :
    Becomes operation targetOf value after := by
  cases value with
  | string entity =>
    obtain ⟨-, rfl | rfl⟩ := entityAfter_eq_some (pure_eq_ok.mp h) <;> exact .string entity
  | code entity =>
    obtain ⟨-, rfl | rfl⟩ := entityAfter_eq_some (pure_eq_ok.mp h) <;> exact .code entity
  | list entity =>
    obtain ⟨-, rfl | rfl⟩ := entityAfter_eq_some (pure_eq_ok.mp h) <;> exact .list entity _
  | notebook record =>
    obtain ⟨-, rfl | rfl⟩ := entityAfter_eq_some (pure_eq_ok.mp h) <;> exact .notebook record _
  | dict entity =>
    obtain ⟨-, rfl | rfl⟩ := entityAfter_eq_some (pure_eq_ok.mp h) <;> exact .dict entity _
  | link entity =>
    obtain ⟨-, rfl | rfl⟩ := entityAfter_eq_some (pure_eq_ok.mp h) <;> exact .link entity
  | identity record =>
    obtain ⟨-, time, rfl⟩ := identityAfter_eq_some (pure_eq_ok.mp h)
    exact .identity record time
  | workflow definition =>
    obtain ⟨image, himage, heq⟩ := map_eq_ok.mp h
    obtain ⟨time, rfl⟩ := workflowAfter_ok himage
    exact Option.some.inj heq ▸ .workflow definition time
  | step definitionId step =>
    exact Option.some.inj (pure_eq_ok.mp h) ▸ .step definitionId step
  | world world =>
    obtain ⟨image, himage, heq⟩ := map_eq_ok.mp h
    obtain ⟨after, hafter, rfl⟩ := map_eq_ok.mp himage
    exact Option.some.inj heq ▸ .world hafter
  | worldMetadata record =>
    obtain ⟨image, himage, heq⟩ := map_eq_ok.mp h
    rw [← Option.some.inj heq, ← pure_eq_ok.mp himage]
    exact .worldMetadata record

/-- The records that may be retired whole: entities and identities. -/
def Value.retirable (value : Value M) : Prop :=
  value.domain ≠ none ∧ value.domain ≠ some .workflow

/-- Exactly the retirable records at retiring addresses go. -/
theorem afterValue_none {value : Value M} :
    afterValue operation targetOf value = .ok none ↔
      value.retirable ∧ value.address ∈ operation.retiring := by
  have hentity : entityAfter operation value = none ↔ value.address ∈ operation.retiring := by
    simp only [entityAfter, List.contains_iff_mem]
    split_ifs with hretiring hchanged <;> simp [hretiring]
  cases value with
  | identity record =>
    simp only [afterValue, pure_eq_ok, identityAfter, List.contains_iff_mem, Value.retirable]
    split_ifs with hretiring hmorph <;> simp [hretiring, Value.domain]
  | workflow | step | world | worldMetadata => simp [afterValue, Value.retirable, Value.domain]
  | string | code | list | notebook | dict | link =>
    simp only [afterValue, pure_eq_ok, hentity, Value.retirable, Value.domain]
    simp

end Shapes

end Space2.ReferenceLifecycle
