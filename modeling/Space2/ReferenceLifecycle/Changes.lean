import Space2.ReferenceLifecycle.Images

/-!
# The changes of all owners

Each file gets at most one change, and the change says what becomes of its record. A world whose
file stays is what the file says, whatever was loaded of it. The owners together prepare the
changes of every file and of every record the operation creates, and no others.
-/

namespace Space2.ReferenceLifecycle
open Base

variable {M T : Type}

def reload (file : File M) : File M :=
  match file.check with
  | some value => if WorldsOwner.isWorld file.value = true then { file with value := value } else file
  | none => file

/-- The record of a file without a change. -/
structure Stays (file : File M) (image : Option (Value M)) : Prop where
  value : image = some (reload file).value
  check : WorldsOwner.isWorld file.value = true → file.check = image

theorem stays_of_not_world {file : File M} (h : WorldsOwner.isWorld file.value = false) :
    Stays file (some file.value) := by
  have hreload : reload file = file := by
    cases hcheck : file.check <;> simp [reload, hcheck, h]
  exact ⟨by rw [hreload], fun hworld => by simp [h] at hworld⟩

theorem reload_check {file : File M} {image : Option (Value M)} (h : Stays file image)
    (hworld : WorldsOwner.isWorld (reload file).value = true) :
    (reload file).check = some (reload file).value := by
  by_cases hfile : WorldsOwner.isWorld file.value = true
  · have hcheck : file.check = some (reload file).value := (h.check hfile).trans h.value
    have hreload : (reload file).check = file.check := by
      cases hfound : file.check <;> simp [reload, hfile, hfound]
    rw [hreload, hcheck]
  · have hreload : reload file = file := by
      cases hcheck : file.check <;> simp [reload, hcheck, hfile]
    rw [hreload] at hworld
    exact absurd hworld hfile

section Files
variable [DecidableEq M] (operation : Operation) (targetOf : Key → Option Key)

/-- The changes prepared for one file. -/
def fileChanges (file : File M) : Except String (List (Change (Value M))) :=
  match file.value with
  | .identity _ => return (IdentitiesOwner.existingChange operation file).toList
  | .workflow _ => WorkflowsOwner.prepareDefinition operation file
  | .world _ | .worldMetadata _ => WorldsOwner.prepareRecord operation targetOf file
  | .step .. => return []
  | _ => return (EntitiesOwner.prepareRecord operation file).toList

variable {operation targetOf} {file : File M} {changes : List (Change (Value M))}

variable (operation targetOf file changes) in
/-- The file gets one change, which says what becomes of its record, or none, and then its record
stays. -/
def Settles : Prop :=
  ∃ image, afterValue operation targetOf file.value = .ok image ∧
    ((∃ change, changes = [change] ∧ change.address = file.value.address ∧
        change.afterBytes = image) ∨
      changes = [] ∧ Stays file image)

theorem settles_entity (howner : afterValue operation targetOf file.value =
      .ok (entityAfter operation file.value)) (hworld : WorldsOwner.isWorld file.value = false) :
    Settles operation targetOf file (EntitiesOwner.prepareRecord operation file).toList := by
  refine ⟨_, howner, ?_⟩
  by_cases hretiring : operation.retiring.contains file.value.address = true
  · exact .inl ⟨_, by rw [EntitiesOwner.prepareRecord, if_pos hretiring]; rfl, rfl,
      by rw [entityAfter, if_pos hretiring]; rfl⟩
  · by_cases hchanged : EntitiesOwner.changedValue operation file.value ≠ file.value
    · exact .inl ⟨_, by rw [EntitiesOwner.prepareRecord, if_neg hretiring, if_pos hchanged]; rfl,
        rfl, by rw [entityAfter, if_neg hretiring, if_pos hchanged]; rfl⟩
    · exact .inr ⟨by rw [EntitiesOwner.prepareRecord, if_neg hretiring, if_neg hchanged]; rfl,
        by rw [entityAfter, if_neg hretiring, if_neg hchanged]; exact stays_of_not_world hworld⟩

theorem settles_identity {record : Identity M} (hvalue : file.value = .identity record) :
    Settles operation targetOf file (IdentitiesOwner.existingChange operation file).toList := by
  refine ⟨identityAfter operation record, by rw [hvalue]; rfl, ?_⟩
  simp only [IdentitiesOwner.existingChange, identityAfter, hvalue]
  by_cases hretiring : operation.retiring.contains (Value.identity record).address = true
  · exact .inl ⟨_, by rw [if_pos hretiring]; rfl, by rw [← hvalue]; rfl, by rw [if_pos hretiring]; rfl⟩
  · by_cases hmorph : operation.kind = .morph ∧ some record.targetKey = operation.sourceKey
    · exact .inl ⟨_, by rw [if_neg hretiring, if_pos hmorph]; rfl, by rw [← hvalue]; rfl,
        by rw [if_neg hretiring, if_pos hmorph]; rfl⟩
    · refine .inr ⟨by rw [if_neg hretiring, if_neg hmorph]; rfl, ?_⟩
      rw [if_neg hretiring, if_neg hmorph, ← hvalue]
      exact stays_of_not_world (by rw [hvalue]; rfl)

theorem settles_workflow {definition : WorkflowDefinition M}
    (hvalue : file.value = .workflow definition)
    (h : WorkflowsOwner.prepareDefinition operation file = .ok changes) :
    Settles operation targetOf file changes := by
  simp only [WorkflowsOwner.prepareDefinition, hvalue] at h
  by_cases hsteps : WorkflowsOwner.removedSteps operation definition = []
  · simp only [hsteps, if_true, pure_eq_ok] at h
    refine ⟨some (.workflow definition), ?_, .inr ⟨h.symm, ?_⟩⟩
    · simp [afterValue, hvalue, workflowAfter, hsteps, Functor.map, Except.map, pure, Except.pure]
    · rw [← hvalue]
      exact stays_of_not_world (by rw [hvalue]; rfl)
  · simp only [hsteps, if_false, bind_eq_ok, pure_eq_ok] at h
    obtain ⟨candidate, hcandidate, rfl⟩ := h
    refine ⟨some (.workflow { candidate with updatedAt := operation.timestamp }), ?_,
      .inl ⟨_, rfl, rfl, rfl⟩⟩
    simp [afterValue, hvalue, workflowAfter, hsteps, hcandidate]

theorem settles_world (hworld : WorldsOwner.isWorld file.value = true)
    (howner : afterValue operation targetOf file.value =
      some <$> WorldsOwner.candidate operation targetOf file.value)
    (h : WorldsOwner.prepareRecord operation targetOf file = .ok changes) :
    Settles operation targetOf file changes := by
  simp only [WorldsOwner.prepareRecord, bind_eq_ok] at h
  obtain ⟨after, hafter, h⟩ := h
  refine ⟨some after, by rw [howner, hafter]; rfl, ?_⟩
  by_cases hcheck : file.check = some after
  · rw [if_pos hcheck, pure_eq_ok] at h
    exact .inr ⟨h.symm, by simp [reload, hcheck, hworld], fun _ => hcheck⟩
  · rw [if_neg hcheck, pure_eq_ok] at h
    exact .inl ⟨_, h.symm, rfl, rfl⟩

theorem fileChanges_settles (h : fileChanges operation targetOf file = .ok changes) :
    Settles operation targetOf file changes := by
  cases hvalue : file.value with
  | identity =>
    simp only [fileChanges, hvalue, pure_eq_ok] at h
    exact h ▸ settles_identity hvalue
  | workflow =>
    simp only [fileChanges, hvalue] at h
    exact settles_workflow hvalue h
  | world | worldMetadata =>
    simp only [fileChanges, hvalue] at h
    exact settles_world (by rw [hvalue]; rfl) (by rw [hvalue]; rfl) h
  | step =>
    simp only [fileChanges, hvalue, pure_eq_ok] at h
    exact ⟨some file.value, by rw [hvalue]; rfl,
      .inr ⟨h.symm, stays_of_not_world (by rw [hvalue]; rfl)⟩⟩
  | string | code | list | dict | link | notebook =>
    simp only [fileChanges, hvalue, pure_eq_ok] at h
    exact h ▸ settles_entity (by rw [hvalue]; rfl) (by rw [hvalue]; rfl)

end Files

section Created
variable {operation : Operation} {files : List (File M)}
  {recordPath : Domain → String → Except String String} {changes : List (Change (Value M))}

variable (files recordPath) in
/-- The change writes the record to an address where no file is. -/
structure Creates (change : Change (Value M)) (value : Value M) : Prop where
  image : change.afterBytes = some value
  address : change.address = value.address
  absent : fileAt? files value.address = none
  path : ∃ domain, value.domain = some domain ∧ recordPath domain value.id = .ok change.path

theorem prepareReplacement_ok
    (h : EntitiesOwner.prepareReplacement operation files recordPath = .ok changes) :
    List.Forall₂ (Creates files recordPath) changes (replacements operation) := by
  simp only [EntitiesOwner.prepareReplacement] at h
  split at h
  next replacement hkind hreplacement =>
    have hvalues : replacements (M := M) operation =
        [.code (EntitiesOwner.codeRecord replacement)] := by
      simp [replacements, hkind, hreplacement]
    rw [hvalues]
    split at h
    next id _ =>
      simp only [bind_eq_ok, ensure_eq_ok, pure_eq_ok] at h
      obtain ⟨-, rfl, path, hpath, -, hnone, rfl⟩ := h
      exact .cons ⟨rfl, rfl, Option.isNone_iff_eq_none.mp hnone, _, rfl, hpath⟩ .nil
    next => simp at h
  next hnot =>
    have hvalues : replacements (M := M) operation = [] := by
      rw [replacements]
      split
      next hkind hreplacement => exact absurd hreplacement (hnot _ hkind)
      next => rfl
    rw [hvalues]
    simp only [pure_eq_ok] at h
    exact h ▸ .nil

theorem reservedChanges_ok [EmptyCollection M] {seen : List String}
    {candidates : List ReservedIdentity}
    (h : IdentitiesOwner.reservedChanges operation files recordPath seen candidates = .ok changes) :
    List.Forall₂ (Creates files recordPath) changes (candidates.map fun candidate =>
      .identity (IdentitiesOwner.reservedRecord candidate)) := by
  induction candidates generalizing seen changes with
  | nil =>
    simp only [IdentitiesOwner.reservedChanges, pure_eq_ok] at h
    exact h ▸ .nil
  | cons candidate rest ih =>
    simp only [IdentitiesOwner.reservedChanges, bind_eq_ok, ensure_eq_ok, pure_eq_ok] at h
    obtain ⟨_, hid, -, -, path, hpath, -, hnone, -, -, others, hothers, rfl⟩ := h
    obtain ⟨-, rfl⟩ := requireId_eq_ok.mp hid
    exact .cons ⟨rfl, rfl, Option.isNone_iff_eq_none.mp hnone, _, rfl, hpath⟩ (ih hothers)

theorem reservedChanges_distinct [EmptyCollection M] {seen : List String}
    {candidates : List ReservedIdentity}
    (h : IdentitiesOwner.reservedChanges operation files recordPath seen candidates = .ok changes) :
    (candidates.map ReservedIdentity.id).Nodup ∧
      ∀ candidate ∈ candidates, ValidId candidate.id ∧ candidate.id ∉ seen := by
  induction candidates generalizing seen changes with
  | nil => exact ⟨List.nodup_nil, by simp⟩
  | cons candidate rest ih =>
    simp only [IdentitiesOwner.reservedChanges, bind_eq_ok, ensure_eq_ok, requireId_eq_ok] at h
    obtain ⟨_, ⟨hvalid, rfl⟩, -, hnew, -, -, -, -, -, -, others, hothers, -⟩ := h
    obtain ⟨hnodup, hrest⟩ := ih hothers
    constructor
    · refine List.nodup_cons.mpr ⟨fun hmem => ?_, hnodup⟩
      obtain ⟨other, hother, hsame⟩ := List.mem_map.mp hmem
      exact (hrest other hother).2 (hsame ▸ List.mem_cons_self)
    · rw [List.forall_mem_cons]
      exact ⟨⟨hvalid, hnew⟩, fun other hother => ⟨(hrest other hother).1,
        fun hmem => (hrest other hother).2 (List.mem_cons_of_mem _ hmem)⟩⟩

end Created

section Owners
variable [DecidableEq M] [EmptyCollection M] {operation : Operation} {files : List (File M)}
  {recordPath : Domain → String → Except String String} {changes : List (Change (Value M))}

variable (operation files recordPath changes) in
/-- The changes are what the four durable owners prepare, in their order. -/
def OwnersPrepare : Prop :=
  ∃ entities identities workflows worlds,
    EntitiesOwner.prepare operation files recordPath (EntitiesOwner.inventory files) = .ok entities ∧
    IdentitiesOwner.prepare operation files recordPath (IdentitiesOwner.inventory files) =
      .ok identities ∧
    WorkflowsOwner.prepare operation (WorkflowsOwner.inventory files) = .ok workflows ∧
    WorldsOwner.prepare operation (storedTarget files)
      (ownInventory (files.filter (WorldsOwner.isWorld ·.value))) = .ok worlds ∧
    changes = entities ++ identities ++ workflows ++ worlds

variable (operation recordPath) in
/-- The changes are those of the files and those of the new records. -/
structure Covers (targetOf : Key → Option Key) (files : List (File M))
    (changes : List (Change (Value M))) : Prop where
  own : ∀ file ∈ files, ∃ own, fileChanges operation targetOf file = .ok own ∧
    ∀ change ∈ own, change ∈ changes
  origin : ∀ change ∈ changes, (∃ file ∈ files, ∃ own,
      fileChanges operation targetOf file = .ok own ∧ change ∈ own) ∨
    ∃ value ∈ newValues operation, Creates files recordPath change value
  created : ∀ value ∈ newValues operation, ∃ change ∈ changes, Creates files recordPath change value
  distinct : (operation.referencePlan.identities.map ReservedIdentity.id).Nodup
  ids : ∀ candidate ∈ operation.referencePlan.identities, ValidId candidate.id

variable {targetOf : Key → Option Key} {file : File M}

omit [EmptyCollection M] in
theorem fileChanges_entity (h : ∃ domain, file.value.domain = some domain ∧
    domain.owner = .entities) : fileChanges operation targetOf file =
      .ok (EntitiesOwner.prepareRecord operation file).toList := by
  obtain ⟨domain, hdomain, howner⟩ := h
  cases hvalue : file.value with
  | string | code | list | dict | link | notebook => simp [fileChanges, hvalue, pure, Except.pure]
  | identity | workflow | step | world | worldMetadata =>
    rw [hvalue] at hdomain
    cases hdomain <;> exact absurd howner (by decide)

omit [EmptyCollection M] in
theorem fileChanges_identity (h : file.value.domain = some .identity) :
    fileChanges operation targetOf file =
      .ok (IdentitiesOwner.existingChange operation file).toList := by
  cases hvalue : file.value <;> simp [hvalue, Value.domain] at h
  simp [fileChanges, hvalue, pure, Except.pure]

omit [EmptyCollection M] in
theorem fileChanges_workflow (h : file.value.domain = some .workflow) :
    fileChanges operation targetOf file = WorkflowsOwner.prepareDefinition operation file := by
  cases hvalue : file.value <;> simp [hvalue, Value.domain] at h
  simp [fileChanges, hvalue]

omit [EmptyCollection M] in
theorem fileChanges_world (h : WorldsOwner.isWorld file.value = true) :
    fileChanges operation targetOf file = WorldsOwner.prepareRecord operation targetOf file := by
  cases hvalue : file.value <;> simp [hvalue, WorldsOwner.isWorld] at h <;>
    simp [fileChanges, hvalue]

/-- All owners together prepare the changes of every file and of every new record. -/
theorem covers_of_owners (h : OwnersPrepare operation files recordPath changes) :
    Covers operation recordPath (storedTarget files) files changes := by
  obtain ⟨entities, identities, workflows, worlds, hentities, hidentities, hworkflows, hworlds,
    rfl⟩ := h
  simp only [EntitiesOwner.prepare, bind_eq_ok, ensure_eq_ok, pure_eq_ok] at hentities
  obtain ⟨-, -, replacement, hreplacement, rfl⟩ := hentities
  simp only [IdentitiesOwner.prepare, bind_eq_ok, ensure_eq_ok, pure_eq_ok] at hidentities
  obtain ⟨-, -, reserved, hreserved, rfl⟩ := hidentities
  simp only [WorkflowsOwner.prepare, bind_eq_ok, ensure_eq_ok, pure_eq_ok] at hworkflows
  obtain ⟨-, -, definitions, hdefinitions, rfl⟩ := hworkflows
  simp only [WorldsOwner.prepare, bind_eq_ok, ensure_eq_ok, pure_eq_ok] at hworlds
  obtain ⟨-, -, scenes, hscenes, rfl⟩ := hworlds
  have hnew := forall₂_members (prepareReplacement_ok hreplacement)
  have hreservedNew := forall₂_members (reservedChanges_ok hreserved)
  have hdefinition := flatten_members hdefinitions
  have hscene := flatten_members hscenes
  obtain ⟨hdistinct, hids⟩ := reservedChanges_distinct hreserved
  refine ⟨?_, ?_, ?_, hdistinct, fun candidate hcandidate => (hids candidate hcandidate).1⟩
  · intro file hfile
    have haddress : file.value.address ∈ file.value.keys := mem_keys.mpr (.inl rfl)
    by_cases hentity : ∃ domain, file.value.domain = some domain ∧ domain.owner = .entities
    · refine ⟨_, fileChanges_entity hentity, fun change hchange => ?_⟩
      have hmem : change ∈ (byAddress (EntitiesOwner.inventory files).records).filterMap
          (EntitiesOwner.prepareRecord operation) :=
        List.mem_filterMap.mpr ⟨file, mem_byAddress.mpr (mem_entities.mpr
          ⟨hfile, haddress, hentity⟩), by simpa using hchange⟩
      simp [hmem]
    · cases hvalue : file.value with
      | string | code | list | dict | link | notebook =>
        exact absurd ⟨_, by rw [hvalue]; rfl, rfl⟩ hentity
      | step => exact ⟨[], by simp [fileChanges, hvalue, pure, Except.pure], by simp⟩
      | identity =>
        have hdomain : file.value.domain = some .identity := by rw [hvalue]; rfl
        refine ⟨_, fileChanges_identity hdomain, fun change hchange => ?_⟩
        have hmem : change ∈ (byAddress (IdentitiesOwner.inventory files).records).filterMap
            (IdentitiesOwner.existingChange operation) :=
          List.mem_filterMap.mpr ⟨file, mem_byAddress.mpr (mem_identities.mpr
            ⟨hfile, haddress, hdomain⟩), by simpa using hchange⟩
        simp [hmem]
      | workflow =>
        have hdomain : file.value.domain = some .workflow := by rw [hvalue]; rfl
        obtain ⟨own, hown, hmem⟩ := hdefinition.1 file
          (mem_byAddress.mpr (mem_workflows.mpr ⟨hfile, haddress, hdomain⟩))
        refine ⟨own, (fileChanges_workflow hdomain).trans hown, fun change hchange => ?_⟩
        simp [hmem change hchange]
      | world | worldMetadata =>
        have hworld : WorldsOwner.isWorld file.value = true := by rw [hvalue]; rfl
        obtain ⟨own, hown, hmem⟩ := hscene.1 file
          (mem_byAddress.mpr (mem_worlds.mpr ⟨hfile, haddress, hworld⟩))
        refine ⟨own, (fileChanges_world hworld).trans hown, fun change hchange => ?_⟩
        simp [hmem change hchange]
  · intro change hchange
    simp only [List.mem_append, List.mem_filterMap, mem_byAddress, mem_entities,
      mem_identities] at hchange
    rcases hchange with (((⟨file, ⟨hfile, -, hdomain⟩, hchange⟩ | hreplacement) |
      (⟨file, ⟨hfile, -, hdomain⟩, hchange⟩ | hreserved)) | hworkflow) | hworld
    · exact .inl ⟨file, hfile, _, fileChanges_entity hdomain, by simpa using hchange⟩
    · obtain ⟨value, hvalue, hcreates⟩ := hnew.1 change hreplacement
      exact .inr ⟨value, List.mem_append_left _ hvalue, hcreates⟩
    · exact .inl ⟨file, hfile, _, fileChanges_identity hdomain, by simpa using hchange⟩
    · obtain ⟨value, hvalue, hcreates⟩ := hreservedNew.1 change hreserved
      exact .inr ⟨value, List.mem_append_right _ hvalue, hcreates⟩
    · obtain ⟨file, hfile, own, hown, hmem⟩ := hdefinition.2 change hworkflow
      obtain ⟨hfile, -, hdomain⟩ := mem_workflows.mp (mem_byAddress.mp hfile)
      exact .inl ⟨file, hfile, own, (fileChanges_workflow hdomain).trans hown, hmem⟩
    · obtain ⟨file, hfile, own, hown, hmem⟩ := hscene.2 change hworld
      obtain ⟨hfile, -, hdomain⟩ := mem_worlds.mp (mem_byAddress.mp hfile)
      exact .inl ⟨file, hfile, own, (fileChanges_world hdomain).trans hown, hmem⟩
  · intro value hvalue
    rcases List.mem_append.mp hvalue with hvalue | hvalue
    · obtain ⟨change, hchange, hcreates⟩ := hnew.2 value hvalue
      exact ⟨change, by simp [hchange], hcreates⟩
    · obtain ⟨change, hchange, hcreates⟩ := hreservedNew.2 value hvalue
      exact ⟨change, by simp [hchange], hcreates⟩

end Owners

end Space2.ReferenceLifecycle
