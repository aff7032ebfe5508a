import Space2.ReferenceLifecycle.Plan

/-!
# Inventories of a library

The five inventories together list every file under its keys and every site of every record. In a
library a key belongs to one file, so looking a key up among the inventoried records and asking the
identity store agree.
-/

namespace Space2.ReferenceLifecycle
open Base

variable {M T : Type} {files : List (File M)}

def entriesOf (files : List (File M)) : List (Entry M) :=
  [(.entities, EntitiesOwner.inventory files), (.identities, IdentitiesOwner.inventory files),
    (.workflows, WorkflowsOwner.inventory files),
    (.worlds, ownInventory (files.filter (WorldsOwner.isWorld ·.value))), (.runtime, ⟨[], []⟩)]

theorem inventories_ok {entries : List (Entry M)} (h : inventories files = .ok entries) :
    entries = entriesOf files := by
  simp only [inventories, ownerIds, List.mapM_cons, List.mapM_nil, ownerInventory,
    WorldsOwner.inventory, bind_eq_ok, map_eq_ok, pure_eq_ok] at h
  obtain ⟨entries, ⟨_, ⟨_, rfl, rfl⟩, _, ⟨_, ⟨_, rfl, rfl⟩, _, ⟨_, ⟨_, rfl, rfl⟩, _,
    ⟨_, ⟨_, ⟨_, _, rfl⟩, rfl⟩, _, ⟨_, ⟨_, rfl, rfl⟩, _, rfl, rfl⟩, rfl⟩, rfl⟩, rfl⟩, rfl⟩, _, _, rfl⟩ := h
  rfl

section Membership

/-- Every value but a step on its own is found by some inventory. -/
def Value.listed (value : Value M) : Prop := value.domain ≠ none ∨ WorldsOwner.isWorld value = true

theorem listed_of_whole {value : Value M} (h : value.isStep = false) : value.listed := by
  cases value with
  | step => simp [Value.isStep] at h
  | world | worldMetadata => exact .inr rfl
  | _ => exact .inl (by simp [Value.domain])

theorem mem_ownInventory {records : List (File M)} {key : Key} {file : File M} :
    (key, file) ∈ (ownInventory records).records ↔ file ∈ records ∧ key ∈ file.value.keys := by
  simp only [ownInventory, List.mem_flatMap, List.mem_map, Prod.mk.injEq]
  constructor
  · rintro ⟨other, hother, key', hkey, rfl, rfl⟩
    exact ⟨hother, hkey⟩
  · rintro ⟨hfile, hkey⟩
    exact ⟨file, hfile, key, hkey, rfl, rfl⟩

theorem mem_entities {key : Key} {file : File M} :
    (key, file) ∈ (EntitiesOwner.inventory files).records ↔
      file ∈ files ∧ key ∈ file.value.keys ∧
        ∃ domain, file.value.domain = some domain ∧ domain.owner = .entities := by
  simp only [EntitiesOwner.inventory, mem_ownInventory, List.mem_flatMap, List.mem_filter,
    mem_recordEntries, decide_eq_true_eq]
  constructor
  · rintro ⟨⟨domain, ⟨-, howner⟩, hfile, hdomain⟩, hkey⟩
    exact ⟨hfile, hkey, domain, hdomain, howner⟩
  · rintro ⟨hfile, hkey, domain, hdomain, howner⟩
    have hall : domain ∈ Domain.all := by cases domain <;> decide
    exact ⟨⟨domain, ⟨hall, howner⟩, hfile, hdomain⟩, hkey⟩

theorem mem_identities {key : Key} {file : File M} :
    (key, file) ∈ (IdentitiesOwner.inventory files).records ↔
      file ∈ files ∧ key ∈ file.value.keys ∧ file.value.domain = some .identity := by
  simp only [IdentitiesOwner.inventory, mem_ownInventory, mem_recordEntries]
  tauto

theorem mem_workflows {key : Key} {file : File M} :
    (key, file) ∈ (WorkflowsOwner.inventory files).records ↔
      file ∈ files ∧ key ∈ file.value.keys ∧ file.value.domain = some .workflow := by
  simp only [WorkflowsOwner.inventory, mem_ownInventory, mem_recordEntries]
  tauto

theorem mem_worlds {key : Key} {file : File M} :
    (key, file) ∈ (ownInventory (files.filter (WorldsOwner.isWorld ·.value))).records ↔
      file ∈ files ∧ key ∈ file.value.keys ∧ WorldsOwner.isWorld file.value = true := by
  simp only [mem_ownInventory, List.mem_filter]
  tauto

theorem mem_mergedRecords {key : Key} {file : File M} :
    (key, file) ∈ mergedRecords (entriesOf files) ↔
      file ∈ files ∧ key ∈ file.value.keys ∧ file.value.listed := by
  simp only [mergedRecords, entriesOf, List.flatMap_cons, List.flatMap_nil, List.append_nil,
    List.mem_append, mem_entities, mem_identities, mem_workflows, mem_worlds, Value.listed]
  constructor
  · rintro (⟨hfile, hkey, domain, hdomain, -⟩ | ⟨hfile, hkey, hdomain⟩ | ⟨hfile, hkey, hdomain⟩ |
      ⟨hfile, hkey, hworld⟩)
    · exact ⟨hfile, hkey, .inl (by simp [hdomain])⟩
    · exact ⟨hfile, hkey, .inl (by simp [hdomain])⟩
    · exact ⟨hfile, hkey, .inl (by simp [hdomain])⟩
    · exact ⟨hfile, hkey, .inr hworld⟩
  · rintro ⟨hfile, hkey, hdomain | hworld⟩
    · obtain ⟨domain, hdomain⟩ := Option.ne_none_iff_exists'.mp hdomain
      cases domain with
      | identity => exact .inr (.inl ⟨hfile, hkey, hdomain⟩)
      | workflow => exact .inr (.inr (.inl ⟨hfile, hkey, hdomain⟩))
      | _ => exact .inl ⟨hfile, hkey, _, hdomain, rfl⟩
    · exact .inr (.inr (.inr ⟨hfile, hkey, hworld⟩))

/-- Sites are found where the records are, and a step on its own has none. -/
theorem mem_allSites {site : Site} :
    site ∈ allSites (entriesOf files) ↔ ∃ file ∈ files, site ∈ recordSites file.value := by
  have hown : ∀ records : List (File M), site ∈ (ownInventory records).sites ↔
      ∃ file ∈ records, site ∈ recordSites file.value := by
    intro records
    simp [ownInventory]
  simp only [allSites, entriesOf, List.flatMap_cons, List.flatMap_nil, List.append_nil,
    List.mem_append, EntitiesOwner.inventory, IdentitiesOwner.inventory, WorkflowsOwner.inventory,
    hown, List.mem_flatMap, List.mem_filter, mem_recordEntries, decide_eq_true_eq]
  constructor
  · rintro (⟨file, ⟨-, -, hfile, -⟩, hsite⟩ | ⟨file, ⟨hfile, -⟩, hsite⟩ |
      ⟨file, ⟨hfile, -⟩, hsite⟩ | ⟨file, ⟨hfile, -⟩, hsite⟩)
    all_goals exact ⟨file, hfile, hsite⟩
  · rintro ⟨file, hfile, hsite⟩
    cases hvalue : file.value with
    | identity => exact .inr (.inl ⟨file, ⟨hfile, by rw [hvalue]; rfl⟩, hsite⟩)
    | workflow => exact .inr (.inr (.inl ⟨file, ⟨hfile, by rw [hvalue]; rfl⟩, hsite⟩))
    | world => exact .inr (.inr (.inr ⟨file, ⟨hfile, by rw [hvalue]; rfl⟩, hsite⟩))
    | worldMetadata => exact .inr (.inr (.inr ⟨file, ⟨hfile, by rw [hvalue]; rfl⟩, hsite⟩))
    | step => rw [hvalue] at hsite; simp [recordSites] at hsite
    | string => exact .inl ⟨file, ⟨.stringEntity, by decide, hfile, by rw [hvalue]; rfl⟩, hsite⟩
    | code => exact .inl ⟨file, ⟨.codeEntity, by decide, hfile, by rw [hvalue]; rfl⟩, hsite⟩
    | list => exact .inl ⟨file, ⟨.listEntity, by decide, hfile, by rw [hvalue]; rfl⟩, hsite⟩
    | dict => exact .inl ⟨file, ⟨.dictEntity, by decide, hfile, by rw [hvalue]; rfl⟩, hsite⟩
    | link => exact .inl ⟨file, ⟨.linkEntity, by decide, hfile, by rw [hvalue]; rfl⟩, hsite⟩
    | notebook => exact .inl ⟨file, ⟨.notebook, by decide, hfile, by rw [hvalue]; rfl⟩, hsite⟩

end Membership

section Keys
variable {value : Value M} {key : Key}

theorem ValidId.no_colon {id : String} (h : ValidId id) : ':' ∉ id.toList := by
  intro hmem
  have hnone := List.any_eq_false.mp h.2.2.2 ':' hmem
  exact hnone rfl

def Value.scheme (value : Value M) : String :=
  match value.domain, value with
  | some domain, _ => domain.scheme
  | none, .step .. => "workflow-step"
  | none, .worldMetadata _ => "world-metadata"
  | none, _ => "world"

theorem Value.address_scheme (value : Value M) :
    ∃ rest, value.address = ReferenceLifecycle.address value.scheme rest := by
  cases value <;> exact ⟨_, rfl⟩

theorem Value.scheme_no_colon (value : Value M) : ':' ∉ value.scheme.toList := by
  have hall : ∀ scheme ∈ Domain.all.map Domain.scheme ++ ["workflow-step", "world-metadata", "world"],
      ':' ∉ scheme.toList := by decide
  apply hall
  cases value <;> simp [Value.scheme, Value.domain, Domain.all]

theorem Value.scheme_of_listed (h : value.listed) : value.scheme ≠ "workflow-step" := by
  cases value with
  | step => simp [Value.listed, Value.domain, WorldsOwner.isWorld] at h
  | _ => simp [Value.scheme, Value.domain, Domain.scheme]

theorem Value.eq_identity (h : value.scheme = "identity") : ∃ record, value = .identity record := by
  cases value with
  | identity record => exact ⟨record, rfl⟩
  | _ => simp [Value.scheme, Value.domain, Domain.scheme] at h

theorem mem_keys : key ∈ value.keys ↔ key = value.address ∨ ∃ definition,
    value = .workflow definition ∧ ∃ step ∈ definition.steps, stepKey definition.id step.id = key := by
  cases value with
  | workflow definition => simp [Value.keys]
  | _ => simp [Value.keys]

/-- The address of a listed record is no step key. -/
theorem address_ne_stepKey (h : value.listed) (definitionId stepId : String) :
    value.address ≠ stepKey definitionId stepId := by
  intro heq
  obtain ⟨rest, haddress⟩ := value.address_scheme
  rw [haddress] at heq
  exact Value.scheme_of_listed h (address_scheme value.scheme_no_colon (by decide) heq)

theorem stepKey_injective {definitionId definitionId' stepId stepId' : String}
    (h : ':' ∉ definitionId.toList) (h' : ':' ∉ definitionId'.toList)
    (heq : stepKey definitionId stepId = stepKey definitionId' stepId') :
    definitionId = definitionId' ∧ stepId = stepId' := by
  have hrest : address definitionId stepId = address definitionId' stepId' := address_injective heq
  obtain rfl := address_scheme h h' hrest
  exact ⟨rfl, address_injective hrest⟩

/-- Only an identity is found under a key of the scheme `identity`, and under its address. -/
theorem identity_of_key (hkey : key ∈ value.keys) (h : isIdentity key = true) :
    key = value.address ∧ ∃ record, value = .identity record := by
  obtain ⟨id, rfl⟩ := isIdentity_iff.mp h
  rcases mem_keys.mp hkey with haddress | ⟨definition, -, step, -, hstep⟩
  · obtain ⟨rest, hrest⟩ := value.address_scheme
    have hscheme : "identity" = value.scheme :=
      address_scheme (by decide) value.scheme_no_colon (haddress.trans hrest)
    exact ⟨haddress, Value.eq_identity hscheme.symm⟩
  · exact absurd (address_scheme (by decide) (by decide) hstep) (by decide)

theorem Library.address_unique (library : Library M) {file other : File M}
    (hfile : file ∈ library.files) (hother : other ∈ library.files)
    (h : file.value.address = other.value.address) : file = other :=
  List.inj_on_of_nodup_map library.distinct hfile hother h

theorem Library.key_unique (library : Library M) {file other : File M}
    (hfile : file ∈ library.files) (hother : other ∈ library.files) (hlisted : file.value.listed)
    (hlisted' : other.value.listed) (hkey : key ∈ file.value.keys) (hkey' : key ∈ other.value.keys) :
    file = other := by
  rcases mem_keys.mp hkey with rfl | ⟨definition, hvalue, step, -, rfl⟩
  · rcases mem_keys.mp hkey' with hsame | ⟨definition, -, step, -, hstep⟩
    · exact library.address_unique hfile hother hsame
    · exact absurd hstep.symm (address_ne_stepKey hlisted _ _)
  · rcases mem_keys.mp hkey' with hsame | ⟨definition', hvalue', step', -, hstep⟩
    · exact absurd hsame.symm (address_ne_stepKey hlisted' _ _)
    · have hid := library.ids file hfile (by simp [hvalue, Value.domain])
      have hid' := library.ids other hother (by simp [hvalue', Value.domain])
      rw [hvalue] at hid
      rw [hvalue'] at hid'
      obtain ⟨hsame, -⟩ := stepKey_injective hid'.no_colon hid.no_colon hstep
      apply library.address_unique hfile hother
      rw [hvalue, hvalue']
      exact congrArg (address "workflow") hsame.symm

end Keys

section Lookup
variable {key : Key} {file : File M}

theorem fileAt?_eq_some_of_distinct {files : List (File M)}
    (hdistinct : (files.map fun file => file.value.address).Nodup) :
    fileAt? files key = some file ↔ file ∈ files ∧ file.value.address = key := by
  rw [fileAt?]
  constructor
  · intro hfound
    exact ⟨List.mem_of_find?_eq_some hfound, by simpa using List.find?_some hfound⟩
  · rintro ⟨hfile, hkey⟩
    cases hfound : files.find? (·.value.address = key) with
    | none => exact absurd (List.find?_eq_none.mp hfound file hfile) (by simp [hkey])
    | some other =>
      have hother : other.value.address = key := by simpa using List.find?_some hfound
      rw [List.inj_on_of_nodup_map hdistinct (List.mem_of_find?_eq_some hfound) hfile
        (hother.trans hkey.symm)]

theorem storedTarget_eq_some_of_distinct {files : List (File M)} {target : Key}
    (hdistinct : (files.map fun file => file.value.address).Nodup) :
    storedTarget files key = some target ↔ ∃ file ∈ files, ∃ record,
      file.value = .identity record ∧ file.value.address = key ∧ record.targetKey = target := by
  rw [storedTarget, Option.bind_eq_some_iff]
  constructor
  · rintro ⟨file, hfound, htarget⟩
    obtain ⟨hfile, hkey⟩ := (fileAt?_eq_some_of_distinct hdistinct).mp hfound
    cases hvalue : file.value with
    | identity record =>
      rw [hvalue] at htarget
      exact ⟨file, hfile, record, hvalue, hkey, Option.some.inj htarget⟩
    | _ => simp [hvalue, Value.identityTarget] at htarget
  · rintro ⟨file, hfile, record, hvalue, hkey, rfl⟩
    exact ⟨file, (fileAt?_eq_some_of_distinct hdistinct).mpr ⟨hfile, hkey⟩, by rw [hvalue]; rfl⟩

variable (library : Library M)

theorem Library.record?_eq_some : record? (mergedRecords (entriesOf library.files)) key = some file ↔
    file ∈ library.files ∧ key ∈ file.value.keys ∧ file.value.listed := by
  rw [← mem_mergedRecords, record?, Option.map_eq_some_iff]
  constructor
  · rintro ⟨⟨key', file'⟩, hfound, rfl⟩
    have hkey : key' = key := by simpa using List.find?_some hfound
    exact hkey ▸ List.mem_of_find?_eq_some hfound
  · intro hmem
    cases hfound : (mergedRecords (entriesOf library.files)).find? (·.1 = key) with
    | none => exact absurd (List.find?_eq_none.mp hfound _ hmem) (by simp)
    | some entry =>
      obtain ⟨key', file'⟩ := entry
      refine ⟨_, rfl, ?_⟩
      have hkey : key' = key := by simpa using List.find?_some hfound
      obtain ⟨hfile', hkeys', hlisted'⟩ := mem_mergedRecords.mp (List.mem_of_find?_eq_some hfound)
      obtain ⟨hfile, hkeys, hlisted⟩ := mem_mergedRecords.mp hmem
      exact library.key_unique hfile' hfile hlisted' hlisted hkeys' (hkey ▸ hkeys)

theorem Library.fileAt?_eq_some : fileAt? library.files key = some file ↔
    file ∈ library.files ∧ file.value.address = key :=
  fileAt?_eq_some_of_distinct library.distinct

theorem Library.storedTarget_eq_some {target : Key} :
    storedTarget library.files key = some target ↔ ∃ file ∈ library.files, ∃ record,
      file.value = .identity record ∧ file.value.address = key ∧ record.targetKey = target :=
  storedTarget_eq_some_of_distinct library.distinct

/-- The records and the identity store name the same targets. -/
theorem Library.identityTarget_eq :
    identityTarget (mergedRecords (entriesOf library.files)) = storedTarget library.files := by
  funext key
  apply Option.ext
  intro target
  rw [library.storedTarget_eq_some, identityTarget, Option.bind_eq_some_iff]
  constructor
  · rintro ⟨file, hfound, htarget⟩
    obtain ⟨hfile, hkey, -⟩ := library.record?_eq_some.mp hfound
    cases hvalue : file.value with
    | identity record =>
      rw [hvalue] at htarget hkey
      refine ⟨file, hfile, record, hvalue, ?_, Option.some.inj htarget⟩
      simpa [Value.keys, hvalue, eq_comm] using hkey
    | _ => simp [hvalue, Value.identityTarget] at htarget
  · rintro ⟨file, hfile, record, hvalue, rfl, rfl⟩
    refine ⟨file, library.record?_eq_some.mpr ⟨hfile, ?_, .inl ?_⟩, by rw [hvalue]; rfl⟩
    · exact mem_keys.mpr (.inl rfl)
    · simp [hvalue, Value.domain]

end Lookup

end Space2.ReferenceLifecycle
