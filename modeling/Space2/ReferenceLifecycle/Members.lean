import Space2.ReferenceLifecycle.Images

/-!
# The references of a record

A reference is a place of a record without its position in a list: the record that holds it, which
for a step of a definition is the step itself, the field, the key and the kind. `transformed` says
for all owners at once what an operation makes of the references of a record that stays.
-/

namespace Space2.ReferenceLifecycle
open Base

variable {M : Type}

structure Reference where
  holder : Key
  place : List FieldStep
  target : Key
  kind : SiteKind
  deriving DecidableEq, Repr

def subjectReference (holder : Key) (slot : BoardSlot) (item : Board.Item M) : Option Reference :=
  item.subjectKey.map fun key =>
    ⟨holder, slot.field ++ [.name "items", .name item.id], key, .boardSubject⟩

def boardReferences (holder : Key) (slot : BoardSlot) (board : Board.State M) : List Reference :=
  board.items.filterMap (subjectReference holder slot)

def Value.references (value : Value M) : List Reference :=
  match value with
  | .list entity => entity.items.map (⟨value.address, [.name "items"], ·, .listItem⟩)
  | .notebook record => record.items.map (⟨value.address, [.name "items"], ·, .notebookItem⟩)
  | .dict entity =>
    entity.items.map fun item => ⟨value.address, [.name "items", .name item.1], item.2, .dictSlot⟩
  | .link entity => [⟨value.address, [.name "source-key"], entity.sourceKey, .linkSource⟩,
      ⟨value.address, [.name "target-key"], entity.targetKey, .linkTarget⟩]
  | .identity record => [⟨value.address, [.name "target-key"], record.targetKey, .identityTarget⟩]
  | .workflow definition => definition.steps.map fun step =>
      ⟨stepKey definition.id step.id, [.name "code-entity-id"],
        ReferenceLifecycle.address "code-entity" step.codeEntityId, .workflowCode⟩
  | .world scene => scene.boards.flatMap fun (slot, board) =>
      boardReferences value.address slot board
  | .string _ | .code _ | .step .. | .worldMetadata _ => []

section Sites

theorem exists_mem_zipIdx {α : Type} {item : α} {items : List α} (h : item ∈ items) :
    ∃ index, (item, index) ∈ items.zipIdx := by
  obtain ⟨index, hindex⟩ := List.mem_iff_getElem?.mp h
  exact ⟨index, List.mk_mem_zipIdx_iff_getElem?.mpr hindex⟩

theorem mem_itemSites {holder key : Key} {kind : SiteKind} {items : List Key} (h : key ∈ items)
    (hne : key ≠ "") : ∃ site ∈ itemSites holder kind items, site.targetKey = key ∧
      site.kind = kind := by
  obtain ⟨index, hindex⟩ := exists_mem_zipIdx h
  exact ⟨_, List.mem_flatMap.mpr ⟨_, hindex, by simp [addSite, hne]; rfl⟩, rfl, rfl⟩

/-- Every reference but an empty one is a site of its record. -/
theorem site_of_reference {value : Value M} {reference : Reference}
    (h : reference ∈ value.references) (hne : reference.target ≠ "") :
    ∃ site ∈ recordSites value, site.targetKey = reference.target ∧ site.kind = reference.kind := by
  cases value with
  | list | notebook =>
    obtain ⟨key, hkey, rfl⟩ := List.mem_map.mp h
    exact mem_itemSites hkey hne
  | dict entity =>
    obtain ⟨item, hitem, rfl⟩ := List.mem_map.mp h
    refine ⟨_, List.mem_flatMap.mpr ⟨item, ?_, by simp [addSite, hne]; rfl⟩, rfl, rfl⟩
    exact (List.mem_insertionSort _).mpr hitem
  | link entity =>
    simp only [Value.references, List.mem_cons, List.not_mem_nil, or_false] at h
    rcases h with rfl | rfl
    · exact ⟨_, List.mem_append_left _ (by simp [addSite, hne]; rfl), rfl, rfl⟩
    · exact ⟨_, List.mem_append_right _ (by simp [addSite, hne]; rfl), rfl, rfl⟩
  | identity record =>
    obtain rfl := List.mem_singleton.mp h
    exact ⟨_, by simp [recordSites, addSite, hne]; rfl, rfl, rfl⟩
  | workflow definition =>
    obtain ⟨step, hstep, rfl⟩ := List.mem_map.mp h
    obtain ⟨index, hindex⟩ := exists_mem_zipIdx hstep
    exact ⟨_, List.mem_map.mpr ⟨_, hindex, rfl⟩, rfl, rfl⟩
  | world world =>
    obtain ⟨⟨slot, board⟩, hboard, hreference⟩ := List.mem_flatMap.mp h
    obtain ⟨item, hitem, hsubject⟩ := List.mem_filterMap.mp hreference
    obtain ⟨key, hkey, rfl⟩ := Option.map_eq_some_iff.mp hsubject
    obtain ⟨index, hindex⟩ := exists_mem_zipIdx hitem
    refine ⟨⟨(Value.world world).address, slot.field ++
      [.name "items", .index (index + 1), .name "subject-key"], key, .boardSubject⟩, ?_, rfl, rfl⟩
    exact List.mem_flatMap.mpr ⟨_, hboard, List.mem_flatMap.mpr ⟨_, hindex, by simp [hkey]⟩⟩
  | string | code | step | worldMetadata => exact absurd h List.not_mem_nil

/-- A step refers to code by its address. -/
theorem code_of_reference {value : Value M} {reference : Reference}
    (h : reference ∈ value.references) (hkind : reference.kind = .workflowCode) :
    ∃ id, reference.target = address "code-entity" id := by
  cases value with
  | workflow =>
    obtain ⟨step, -, rfl⟩ := List.mem_map.mp h
    exact ⟨_, rfl⟩
  | link | identity =>
    simp only [Value.references, List.mem_cons, List.not_mem_nil, or_false] at h
    grind
  | list | notebook | dict =>
    obtain ⟨_, -, rfl⟩ := List.mem_map.mp h
    cases hkind
  | world =>
    obtain ⟨board, -, h⟩ := List.mem_flatMap.mp h
    obtain ⟨item, -, h⟩ := List.mem_filterMap.mp h
    obtain ⟨key, -, rfl⟩ := Option.map_eq_some_iff.mp h
    cases hkind
  | string | code | step | worldMetadata => exact absurd h List.not_mem_nil

end Sites

section Transformed
variable (operation : Operation)

/-- A reference that a delete takes out of a record that stays. -/
def dropped (reference : Reference) : Bool :=
  match reference.kind with
  | .linkSource | .linkTarget | .identityTarget => false
  | _ => operation.kind = .delete &&
      (operation.retiring.contains reference.holder || operation.retiring.contains reference.target)

def rewritten (reference : Reference) : Reference :=
  match reference.kind with
  | .identityTarget => { reference with target := identityTargetAfter operation reference.target }
  | .workflowCode => reference
  | _ => { reference with target := rewrite operation reference.target }

def once (reference : Reference) : Bool :=
  match reference.kind with
  | .listItem | .notebookItem => EntitiesOwner.unique operation reference.target
  | _ => false

def transformed (references : List Reference) : List Reference :=
  keepFirst (once operation)
    ((references.filter fun reference => !dropped operation reference).map (rewritten operation))

variable {operation} {targetOf : Key → Option Key}

theorem transformed_of_never {references : List Reference}
    (h : ∀ reference ∈ references, reference.kind ≠ .listItem ∧ reference.kind ≠ .notebookItem) :
    transformed operation references =
      (references.filter fun reference => !dropped operation reference).map (rewritten operation) := by
  apply keepFirst_of_never
  intro reference hmem
  obtain ⟨before, hbefore, rfl⟩ := List.mem_map.mp hmem
  obtain ⟨hlist, hnotebook⟩ := h before (List.mem_filter.mp hbefore).1
  cases hkind : before.kind <;> simp_all [once, rewritten]

theorem transformed_items {holder : Key} {kind : SiteKind} {items : List Key}
    (hkind : kind = .listItem ∨ kind = .notebookItem)
    (hstays : operation.kind = .delete → holder ∉ operation.retiring) :
    transformed operation (items.map (⟨holder, [.name "items"], ·, kind⟩)) =
      (EntitiesOwner.transformedItems operation items).map (⟨holder, [.name "items"], ·, kind⟩) := by
  have hinjective : Function.Injective (⟨holder, [.name "items"], ·, kind⟩ : Key → Reference) :=
    fun _ _ h => congrArg Reference.target h
  rw [transformed, EntitiesOwner.transformedItems, List.filter_map, List.map_map]
  have hmap : (rewritten operation ∘ (⟨holder, [.name "items"], ·, kind⟩ : Key → Reference)) =
      (⟨holder, [.name "items"], ·, kind⟩ : Key → Reference) ∘ rewrite operation := by
    funext key
    rcases hkind with rfl | rfl <;> rfl
  have hfilter : ((fun reference => !dropped operation reference) ∘
      (⟨holder, [.name "items"], ·, kind⟩ : Key → Reference)) = EntitiesOwner.kept operation := by
    funext key
    by_cases hdelete : operation.kind = .delete
    · rcases hkind with rfl | rfl <;>
        simp [dropped, EntitiesOwner.kept, hdelete, hstays hdelete]
    · rcases hkind with rfl | rfl <;> simp [dropped, EntitiesOwner.kept, hdelete]
  have honce : once operation ∘ (⟨holder, [.name "items"], ·, kind⟩ : Key → Reference) =
      EntitiesOwner.unique operation := by
    funext key
    rcases hkind with rfl | rfl <;> rfl
  rw [hmap, hfilter, ← List.map_map, keepFirst_map hinjective, honce]

theorem transformed_nil : transformed operation [] = [] := rfl

theorem boardReferences_rewrite {holder : Key} {slot : BoardSlot} {board after : Board.State M}
    (hstays : operation.kind = .delete → holder ∉ operation.retiring)
    (h : Board.rewriteState operation targetOf board = .ok after) :
    boardReferences holder slot after =
      ((boardReferences holder slot board).filter fun reference =>
        !dropped operation reference).map (rewritten operation) := by
  simp only [Board.rewriteState, bind_eq_ok, pure_eq_ok] at h
  obtain ⟨items, hitems, rfl⟩ := h
  replace hitems := mapM_eq_ok.mp hitems
  simp only [boardReferences]
  generalize hkept : board.items.filter (fun item => !Board.retired operation item) = kept at hitems
  have hbefore : (board.items.filterMap (subjectReference holder slot)).filter
      (fun reference => !dropped operation reference) =
        kept.filterMap (subjectReference holder slot) := by
    rw [← hkept, List.filter_filterMap, List.filterMap_filter]
    apply List.filterMap_congr
    intro item _
    cases hkey : item.subjectKey with
    | none => simp [subjectReference, hkey]
    | some key =>
      by_cases hdelete : operation.kind = .delete
      · simp [subjectReference, hkey, Option.filter, dropped, Board.retired, hdelete, hstays hdelete]
      · simp [subjectReference, hkey, Option.filter, dropped, Board.retired, hdelete]
  rw [hbefore]
  clear hkept hbefore
  induction hitems with
  | nil => rfl
  | @cons item out kept items hitem _ ih =>
    have hout : subjectReference holder slot out =
        (subjectReference holder slot item).map (rewritten operation) := by
      simp only [Board.rewriteSubject] at hitem
      cases hkey : item.subjectKey with
      | none =>
        simp only [hkey, pure_eq_ok] at hitem
        simp [subjectReference, ← hitem, hkey]
      | some key =>
        simp only [hkey, bind_eq_ok, pure_eq_ok] at hitem
        obtain ⟨target, -, rfl⟩ := hitem
        simp [subjectReference, hkey, rewritten]
    rw [List.filterMap_cons, List.filterMap_cons, hout]
    cases subjectReference holder slot item with
    | none => exact ih
    | some reference => exact congrArg _ ih

theorem boards_rewrite {holder : Key} {boards after : List (BoardSlot × Board.State M)}
    (hstays : operation.kind = .delete → holder ∉ operation.retiring)
    (h : WorldsOwner.rewriteBoards operation targetOf boards = .ok after) :
    (after.flatMap fun (slot, board) => boardReferences holder slot board) =
      ((boards.flatMap fun (slot, board) => boardReferences holder slot board).filter fun reference =>
        !dropped operation reference).map (rewritten operation) := by
  have hboards := mapM_eq_ok.mp h
  clear h
  induction hboards with
  | nil => rfl
  | @cons board out boards after hboard _ ih =>
    obtain ⟨slot, board⟩ := board
    obtain ⟨state, hstate, rfl⟩ := map_eq_ok.mp hboard
    rw [List.flatMap_cons, List.flatMap_cons, ih, List.filter_append, List.map_append]
    exact congrArg (· ++ _) (boardReferences_rewrite hstays hstate)

/-- A step goes when it or its code is retired; the ids of a valid definition tell steps apart. -/
theorem mem_removedSteps {definition : WorkflowDefinition M} (hvalid : ValidDefinition definition)
    {step : WorkflowStep M} (hstep : step ∈ definition.steps) :
    step.id ∈ WorkflowsOwner.removedSteps operation definition ↔ operation.kind = .delete ∧
      (address "code-entity" step.codeEntityId ∈ operation.retiring ∨
        stepKey definition.id step.id ∈ operation.retiring) := by
  by_cases hdelete : operation.kind = .delete
  · simp only [WorkflowsOwner.removedSteps, hdelete, if_true, List.mem_map, List.mem_filter,
      Bool.or_eq_true, List.contains_iff_mem, true_and]
    constructor
    · rintro ⟨other, ⟨hother, hgone⟩, hid⟩
      obtain rfl := List.inj_on_of_nodup_map hvalid.distinct hother hstep hid
      exact hgone
    · exact fun hgone => ⟨step, ⟨hstep, hgone⟩, rfl⟩
  · simp [WorkflowsOwner.removedSteps, hdelete]

theorem Becomes.references_eq {value after : Value M} (h : Becomes operation targetOf value after)
    (hvalid : ∀ definition, value = .workflow definition → ValidDefinition definition)
    (hstays : operation.kind = .delete → value.domain ≠ some .workflow →
      value.address ∉ operation.retiring) :
    after.references = transformed operation value.references := by
  cases h with
  | string | code | step | worldMetadata => exact transformed_nil.symm
  | list entity | notebook entity =>
    exact (transformed_items (by simp) fun hdelete => hstays hdelete (by simp [Value.domain])).symm
  | dict entity =>
    have hkinds : ∀ reference ∈ (Value.dict entity).references, reference.kind = .dictSlot := by
      intro reference hmem
      obtain ⟨item, -, rfl⟩ := List.mem_map.mp hmem
      rfl
    rw [transformed_of_never fun reference hmem => by simp [hkinds reference hmem]]
    simp only [Value.references, EntitiesOwner.transformedSlots, List.filter_map, List.map_map]
    congr 1
    apply List.filter_congr
    intro item _
    by_cases hdelete : operation.kind = .delete
    · have hholder := hstays hdelete (by simp [Value.domain])
      simp [dropped, EntitiesOwner.kept, hdelete, hholder]
    · simp [dropped, EntitiesOwner.kept, hdelete]
  | link entity =>
    rw [transformed_of_never (by simp [Value.references])]
    rfl
  | identity record =>
    rw [transformed_of_never (by simp [Value.references])]
    rfl
  | workflow definition =>
    have hkinds : ∀ reference ∈ (Value.workflow definition).references,
        reference.kind = .workflowCode := by
      intro reference hmem
      obtain ⟨step, -, rfl⟩ := List.mem_map.mp hmem
      rfl
    rw [transformed_of_never fun reference hmem => by simp [hkinds reference hmem]]
    simp only [Value.references, withoutSteps, List.filter_map, List.map_map]
    congr 1
    apply List.filter_congr
    intro step hstep
    have hremoved : step.id ∈ WorkflowsOwner.removedSteps operation definition ↔ _ :=
      mem_removedSteps (hvalid definition rfl) hstep
    by_cases hdelete : operation.kind = .delete
    · simp only [dropped, Function.comp_apply, hremoved, hdelete]
      simp [Bool.and_comm]
    · simp [dropped, hremoved, hdelete]
  | @world world _ hworld =>
    have hkinds : ∀ reference ∈ (Value.world world).references, reference.kind = .boardSubject := by
      intro reference hmem
      obtain ⟨board, -, hmem⟩ := List.mem_flatMap.mp hmem
      obtain ⟨item, -, hmem⟩ := List.mem_filterMap.mp hmem
      obtain ⟨key, -, rfl⟩ := Option.map_eq_some_iff.mp hmem
      rfl
    rw [transformed_of_never fun reference hmem => by simp [hkinds reference hmem]]
    simp only [WorldsOwner.rewriteWorld, bind_eq_ok, pure_eq_ok] at hworld
    obtain ⟨boards, hboards, rfl⟩ := hworld
    exact boards_rewrite (fun hdelete => hstays hdelete (by simp [Value.domain])) hboards

end Transformed

end Space2.ReferenceLifecycle
