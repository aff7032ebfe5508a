import Space2.ReferenceLifecycle.Inventories

/-!
# What a delete retires

A round of the closure names the links with an endpoint among the keys visited so far, the
identities with their target among them and the steps with their code among them. Every key it
names is a key of some record, so the rounds end, and what they end with is the least set of keys
that holds the source and everything that cannot stay without its members.
-/

namespace Space2.ReferenceLifecycle
open Base

variable {M T : Type}

/-- The set holds every link, identity and workflow step that refers to one of its members. -/
structure Retires (files : List (File M)) (T : Set Key) : Prop where
  link : ∀ file ∈ files, ∀ link, file.value = .link link →
    link.sourceKey ∈ T ∨ link.targetKey ∈ T → file.value.address ∈ T
  identity : ∀ file ∈ files, ∀ record, file.value = .identity record →
    record.targetKey ∈ T → file.value.address ∈ T
  step : ∀ file ∈ files, ∀ definition, file.value = .workflow definition →
    ∀ step ∈ definition.steps, address "code-entity" step.codeEntityId ∈ T →
      stepKey definition.id step.id ∈ T

/-- One round: the key goes because some visited key is gone. -/
inductive Dependent (files : List (File M)) (visited : List Key) : Key → Prop
  | source {file : File M} {link : LinkEntity M} (hfile : file ∈ files)
      (hvalue : file.value = .link link) (hne : link.sourceKey ≠ "")
      (hgone : link.sourceKey ∈ visited) : Dependent files visited file.value.address
  | target {file : File M} {link : LinkEntity M} (hfile : file ∈ files)
      (hvalue : file.value = .link link) (hne : link.targetKey ≠ "")
      (hgone : link.targetKey ∈ visited) : Dependent files visited file.value.address
  | identity {file : File M} {record : Identity M} (hfile : file ∈ files)
      (hvalue : file.value = .identity record) (hne : record.targetKey ≠ "")
      (hgone : record.targetKey ∈ visited) : Dependent files visited file.value.address
  | step {file : File M} {definition : WorkflowDefinition M} {step : WorkflowStep M}
      (hfile : file ∈ files) (hvalue : file.value = .workflow definition)
      (hstep : step ∈ definition.steps)
      (hgone : address "code-entity" step.codeEntityId ∈ visited ∨
        stepKey definition.id step.id ∈ visited) :
      Dependent files visited (stepKey definition.id step.id)

section Sites
variable {value : Value M} {site : Site}

@[simp] theorem mem_addSite {place target : Key} {field : List FieldStep} {kind : SiteKind} :
    site ∈ addSite place field target kind ↔ target ≠ "" ∧ site = ⟨place, field, target, kind⟩ := by
  by_cases h : target = "" <;> simp [addSite, h]

/-- The sites of a link's endpoints are found in links only. -/
theorem mem_linkSites : site ∈ recordSites value ∧
    (site.kind = .linkSource ∨ site.kind = .linkTarget) ↔ ∃ link, value = .link link ∧
      ((link.sourceKey ≠ "" ∧ site = ⟨value.address, [.name "source-key"], link.sourceKey, .linkSource⟩) ∨
        (link.targetKey ≠ "" ∧
          site = ⟨value.address, [.name "target-key"], link.targetKey, .linkTarget⟩)) := by
  constructor
  · rintro ⟨hsite, hkind⟩
    cases value with
    | link link => exact ⟨link, rfl, by simpa [recordSites] using hsite⟩
    | string | code | step | worldMetadata => simp [recordSites] at hsite
    | list | notebook | dict | identity | workflow | world =>
      simp only [recordSites, itemSites, slotSites, stepSites, boardSites, List.mem_flatMap,
        List.mem_map, mem_addSite] at hsite
      grind
  · rintro ⟨link, rfl, ⟨hne, rfl⟩ | ⟨hne, rfl⟩⟩
    · exact ⟨by simp [recordSites, hne], .inl rfl⟩
    · exact ⟨by simp [recordSites, hne], .inr rfl⟩

end Sites

section Rounds
variable {files : List (File M)} {operation : Operation} {visited : List Key} {key : Key}

theorem mem_expand_entities (hkind : operation.kind = .delete) :
    key ∈ EntitiesOwner.expand (EntitiesOwner.inventory files) operation ↔
      ∃ file ∈ files, ∃ link, file.value = .link link ∧ file.value.address = key ∧
        (link.sourceKey ≠ "" ∧ link.sourceKey ∈ operation.retiring ∨
          link.targetKey ≠ "" ∧ link.targetKey ∈ operation.retiring) := by
  have hsites : ∀ site, site ∈ (EntitiesOwner.inventory files).sites ∧
      (site.kind = .linkSource ∨ site.kind = .linkTarget) ↔ ∃ file ∈ files,
        site ∈ recordSites file.value ∧ (site.kind = .linkSource ∨ site.kind = .linkTarget) := by
    intro site
    simp only [EntitiesOwner.inventory, ownInventory, List.mem_flatMap, mem_recordEntries]
    constructor
    · rintro ⟨⟨file, ⟨-, -, hfile, -⟩, hsite⟩, hkind⟩
      exact ⟨file, hfile, hsite, hkind⟩
    · rintro ⟨file, hfile, hboth⟩
      obtain ⟨link, hvalue, -⟩ := mem_linkSites.mp hboth
      exact ⟨⟨file, ⟨.linkEntity, by decide, hfile, by rw [hvalue]; rfl⟩, hboth.1⟩, hboth.2⟩
  simp only [EntitiesOwner.expand, hkind, if_true, mem_sortedKeys, List.mem_dedup, List.mem_map,
    List.mem_filter, Bool.and_eq_true, Bool.or_eq_true, decide_eq_true_eq, List.contains_iff_mem]
  constructor
  · rintro ⟨site, ⟨hsite, hlink, hgone⟩, rfl⟩
    obtain ⟨file, hfile, hboth⟩ := (hsites site).mp ⟨hsite, hlink⟩
    obtain ⟨link, hvalue, ⟨hne, rfl⟩ | ⟨hne, rfl⟩⟩ := mem_linkSites.mp hboth
    · exact ⟨file, hfile, link, hvalue, rfl, .inl ⟨hne, hgone⟩⟩
    · exact ⟨file, hfile, link, hvalue, rfl, .inr ⟨hne, hgone⟩⟩
  · rintro ⟨file, hfile, link, hvalue, rfl, ⟨hne, hgone⟩ | ⟨hne, hgone⟩⟩
    · obtain ⟨hsite, hlink⟩ := (hsites _).mpr ⟨file, hfile,
        mem_linkSites.mpr ⟨link, hvalue, .inl ⟨hne, rfl⟩⟩⟩
      exact ⟨_, ⟨hsite, hlink, hgone⟩, rfl⟩
    · obtain ⟨hsite, hlink⟩ := (hsites _).mpr ⟨file, hfile,
        mem_linkSites.mpr ⟨link, hvalue, .inr ⟨hne, rfl⟩⟩⟩
      exact ⟨_, ⟨hsite, hlink, hgone⟩, rfl⟩

theorem mem_expand_identities (hkind : operation.kind = .delete) :
    key ∈ IdentitiesOwner.expand (IdentitiesOwner.inventory files) operation ↔
      ∃ file ∈ files, ∃ record, file.value = .identity record ∧ file.value.address = key ∧
        record.targetKey ≠ "" ∧ record.targetKey ∈ operation.retiring := by
  simp only [IdentitiesOwner.expand, IdentitiesOwner.inventory, ownInventory, hkind, if_true,
    mem_sortedKeys, List.mem_map, List.mem_filter, List.mem_flatMap, mem_recordEntries,
    List.contains_iff_mem]
  constructor
  · rintro ⟨site, ⟨⟨file, ⟨hfile, hdomain⟩, hsite⟩, hgone⟩, rfl⟩
    cases hvalue : file.value with
    | identity record =>
      rw [hvalue] at hsite
      obtain ⟨hne, rfl⟩ := mem_addSite.mp hsite
      exact ⟨file, hfile, record, hvalue, by rw [hvalue], hne, hgone⟩
    | _ => simp [hvalue, Value.domain] at hdomain
  · rintro ⟨file, hfile, record, hvalue, rfl, hne, hgone⟩
    refine ⟨⟨file.value.address, [.name "target-key"], record.targetKey, .identityTarget⟩,
      ⟨⟨file, ⟨hfile, by rw [hvalue]; rfl⟩, ?_⟩, hgone⟩, rfl⟩
    rw [hvalue]
    exact mem_addSite.mpr ⟨hne, rfl⟩

theorem mem_expand_workflows (hkind : operation.kind = .delete) :
    key ∈ WorkflowsOwner.expand operation (WorkflowsOwner.inventory files) ↔
      ∃ file ∈ files, ∃ definition, file.value = .workflow definition ∧ ∃ step ∈ definition.steps,
        (address "code-entity" step.codeEntityId ∈ operation.retiring ∨
          stepKey definition.id step.id ∈ operation.retiring) ∧
        stepKey definition.id step.id = key := by
  simp only [WorkflowsOwner.expand, List.mem_flatMap, mem_byAddress, mem_workflows]
  constructor
  · rintro ⟨file, ⟨hfile, -, hdomain⟩, hkey⟩
    cases hvalue : file.value with
    | workflow definition =>
      rw [hvalue] at hkey
      simp only [WorkflowsOwner.removedSteps, hkind, if_true, List.mem_map, List.mem_filter,
        Bool.or_eq_true, List.contains_iff_mem] at hkey
      obtain ⟨_, ⟨step, ⟨hstep, hgone⟩, rfl⟩, rfl⟩ := hkey
      exact ⟨file, hfile, definition, hvalue, step, hstep, hgone, rfl⟩
    | _ => simp [hvalue, Value.domain] at hdomain
  · rintro ⟨file, hfile, definition, hvalue, step, hstep, hgone, rfl⟩
    refine ⟨file, ⟨hfile, mem_keys.mpr (.inl rfl), by rw [hvalue]; rfl⟩, ?_⟩
    rw [hvalue]
    simp only [WorkflowsOwner.removedSteps, hkind, if_true, List.mem_map, List.mem_filter,
      Bool.or_eq_true, List.contains_iff_mem]
    exact ⟨step.id, ⟨step, ⟨hstep, hgone⟩, rfl⟩, rfl⟩

theorem mem_round (hkind : operation.kind = .delete) :
    key ∈ (entriesOf files).flatMap
        (expandOwner { operation with retiring := sortedKeys visited }) ↔
      Dependent files visited key := by
  have hkind' : ({ operation with retiring := sortedKeys visited } : Operation).kind = .delete :=
    hkind
  simp only [entriesOf, List.flatMap_cons, List.flatMap_nil, List.append_nil, expandOwner,
    List.mem_append]
  rw [mem_expand_entities hkind', mem_expand_identities hkind', mem_expand_workflows hkind']
  simp only [mem_sortedKeys]
  constructor
  · rintro (⟨file, hfile, link, hvalue, rfl, ⟨hne, hgone⟩ | ⟨hne, hgone⟩⟩ |
      ⟨file, hfile, record, hvalue, rfl, hne, hgone⟩ |
      ⟨file, hfile, definition, hvalue, step, hstep, hgone, rfl⟩)
    · exact .source hfile hvalue hne hgone
    · exact .target hfile hvalue hne hgone
    · exact .identity hfile hvalue hne hgone
    · exact .step hfile hvalue hstep hgone
  · intro hdependent
    cases hdependent with
    | source hfile hvalue hne hgone => exact .inl ⟨_, hfile, _, hvalue, rfl, .inl ⟨hne, hgone⟩⟩
    | target hfile hvalue hne hgone => exact .inl ⟨_, hfile, _, hvalue, rfl, .inr ⟨hne, hgone⟩⟩
    | identity hfile hvalue hne hgone => exact .inr (.inl ⟨_, hfile, _, hvalue, rfl, hne, hgone⟩)
    | step hfile hvalue hstep hgone =>
      exact .inr (.inr ⟨_, hfile, _, hvalue, _, hstep, hgone, rfl⟩)

end Rounds

section Targets

theorem address_ne_empty (scheme id : String) : address scheme id ≠ "" := by simp [address]

theorem file_key_ne_empty {value : Value M} {key : Key} (h : key ∈ value.keys) : key ≠ "" := by
  rcases mem_keys.mp h with rfl | ⟨definition, -, step, -, rfl⟩
  · obtain ⟨rest, hrest⟩ := value.address_scheme
    rw [hrest]
    exact address_ne_empty _ _
  · exact address_ne_empty _ _

theorem target_address (scheme : Scheme) {id : String} (h : ValidId id)
    (hstep : scheme ≠ .workflowStep) : target (some (address scheme.name id)) = .ok (scheme, id) := by
  have hcolon : ':' ∉ scheme.name.toList := by cases scheme <;> decide
  have hne : scheme.name ≠ "" := by cases scheme <;> decide
  have hname : Scheme.ofName scheme.name = some scheme := by cases scheme <;> decide
  have hid : requireId id = .ok id := requireId_eq_ok.mpr ⟨h, rfl⟩
  simp only [target, splitKey_address hcolon hne h.1, hname]
  cases scheme <;> first | exact absurd rfl hstep | simp [hid]

theorem target_stepKey {definitionId stepId : String} (h : ValidId definitionId)
    (h' : ValidId stepId) : target (some (stepKey definitionId stepId)) =
      .ok (.workflowStep, definitionId ++ ":" ++ stepId) := by
  have hne : definitionId ++ ":" ++ stepId ≠ "" := by simp
  have hsplit : splitStep (definitionId ++ ":" ++ stepId) = some (definitionId, stepId) := by
    have haddress := splitKey_address h.no_colon h.1 h'.1
    simp only [address] at haddress
    simp [splitStep, haddress, h'.no_colon]
  have hname : Scheme.ofName "workflow-step" = some .workflowStep := by decide
  have hkey : splitKey (stepKey definitionId stepId) =
      some ("workflow-step", definitionId ++ ":" ++ stepId) :=
    splitKey_address (by decide) (by decide) hne
  have hid : requireId definitionId = .ok definitionId := requireId_eq_ok.mpr ⟨h, rfl⟩
  have hid' : requireId stepId = .ok stepId := requireId_eq_ok.mpr ⟨h', rfl⟩
  simp [target, hkey, hname, hsplit, hid, hid']

end Targets

section Fixpoint
variable (library : Library M) {operation : Operation} {visited : List Key} {key source : Key}

/-- A key that goes is a supported key of some record. -/
theorem dependent_recorded (h : Dependent library.files visited key) :
    key ∈ (mergedRecords (entriesOf library.files)).map Prod.fst ∧
      ∃ pair, target (some key) = .ok pair := by
  have hrecord : ∀ file ∈ library.files, file.value.domain ≠ none → ∀ key ∈ file.value.keys,
      key ∈ (mergedRecords (entriesOf library.files)).map Prod.fst := by
    intro file hfile hdomain key hkey
    exact List.mem_map.mpr ⟨(key, file), mem_mergedRecords.mpr ⟨hfile, hkey, .inl hdomain⟩, rfl⟩
  have hlink : ∀ file ∈ library.files, ∀ link, file.value = .link link →
      ∃ pair, target (some file.value.address) = .ok pair := by
    intro file hfile link hvalue
    have hid := library.ids file hfile (by simp [hvalue, Value.domain])
    rw [hvalue] at hid ⊢
    exact ⟨_, target_address .linkEntity hid (by decide)⟩
  cases h with
  | source hfile hvalue _ _ =>
    exact ⟨hrecord _ hfile (by simp [hvalue, Value.domain]) _ (mem_keys.mpr (.inl rfl)),
      hlink _ hfile _ hvalue⟩
  | target hfile hvalue _ _ =>
    exact ⟨hrecord _ hfile (by simp [hvalue, Value.domain]) _ (mem_keys.mpr (.inl rfl)),
      hlink _ hfile _ hvalue⟩
  | identity hfile hvalue _ _ =>
    refine ⟨hrecord _ hfile (by simp [hvalue, Value.domain]) _ (mem_keys.mpr (.inl rfl)), ?_⟩
    have hid := library.ids _ hfile (by simp [hvalue, Value.domain])
    rw [hvalue] at hid ⊢
    exact ⟨_, target_address .identity hid (by decide)⟩
  | step hfile hvalue hstep _ =>
    refine ⟨hrecord _ hfile (by simp [hvalue, Value.domain]) _
      (mem_keys.mpr (.inr ⟨_, hvalue, _, hstep, rfl⟩)), ?_⟩
    have hid := library.ids _ hfile (by simp [hvalue, Value.domain])
    rw [hvalue] at hid
    exact ⟨_, target_stepKey hid ((library.definitions _ hfile _ hvalue).stepIds _ hstep)⟩

theorem closureRound_ok (hkind : operation.kind = .delete) (visited : List Key) :
    ∃ found, closureRound (entriesOf library.files) operation visited = .ok found ∧
      ∀ key, key ∈ found ↔ Dependent library.files visited key := by
  refine ⟨_, ?_, fun key => mem_round hkind⟩
  simp only [closureRound, bind_eq_ok, pure_eq_ok, and_true]
  refine ⟨(), forM_eq_ok.mpr fun key hkey => ?_⟩
  obtain ⟨-, pair, hpair⟩ := dependent_recorded library ((mem_round hkind).mp hkey)
  rw [hpair]
  rfl

theorem dependent_mono {visited' : List Key} (hsub : ∀ key ∈ visited, key ∈ visited')
    (h : Dependent library.files visited key) : Dependent library.files visited' key := by
  cases h with
  | source hfile hvalue hne hgone => exact .source hfile hvalue hne (hsub _ hgone)
  | target hfile hvalue hne hgone => exact .target hfile hvalue hne (hsub _ hgone)
  | identity hfile hvalue hne hgone => exact .identity hfile hvalue hne (hsub _ hgone)
  | step hfile hvalue hstep hgone =>
    exact .step hfile hvalue hstep (hgone.imp (hsub _) (hsub _))

/-- The sets that rounds stay in are those that hold what depends on their members. -/
theorem retires_of_closed {T : Set Key} (hT : Retires library.files T)
    (hvisited : ∀ key ∈ visited, key ∈ T) (h : Dependent library.files visited key) : key ∈ T := by
  cases h with
  | source hfile hvalue _ hgone => exact hT.link _ hfile _ hvalue (.inl (hvisited _ hgone))
  | target hfile hvalue _ hgone => exact hT.link _ hfile _ hvalue (.inr (hvisited _ hgone))
  | identity hfile hvalue _ hgone => exact hT.identity _ hfile _ hvalue (hvisited _ hgone)
  | step hfile hvalue hstep hgone =>
    rcases hgone with hcode | hself
    · exact hT.step _ hfile _ hvalue _ hstep (hvisited _ hcode)
    · exact hvisited _ hself

/-- The closure ends with the least set that holds the source and retires its dependents. -/
theorem closure_ok (hkind : operation.kind = .delete) (hsource : source ≠ "") :
    ∃ retiring, closure (entriesOf library.files) operation source = .ok retiring ∧
      IsLeast {T : Set Key | source ∈ T ∧ Retires library.files T} {key | key ∈ retiring} := by
  have hround := closureRound_ok library hkind
  have hends : ∃ visited, saturate (closureRound (entriesOf library.files) operation)
      ((mergedRecords (entriesOf library.files)).length + 1) [source] = some (.ok visited) ∧
      visited.Nodup ∧ visited ⊆ source :: (mergedRecords (entriesOf library.files)).map Prod.fst := by
    apply saturate_ends
    · intro seen _
      obtain ⟨found, hfound, hmem⟩ := hround seen
      refine ⟨found, hfound, fun key hkey => List.mem_cons_of_mem _ ?_⟩
      exact (dependent_recorded library ((hmem key).mp hkey)).1
    all_goals simp
  obtain ⟨visited, hvisited, -, hcarrier⟩ := hends
  obtain ⟨hstart, found, hfound, hclosed⟩ := saturate_closed hvisited
  have hdependent : ∀ key, Dependent library.files visited key → key ∈ visited := by
    intro key hkey
    obtain ⟨found', hfound', hmem⟩ := hround visited
    rw [hfound] at hfound'
    obtain rfl := Except.ok.inj hfound'
    exact hclosed ((hmem key).mpr hkey)
  have hempty : "" ∉ visited := by
    intro hmem
    rcases List.mem_cons.mp (hcarrier hmem) with heq | hrecord
    · exact hsource heq.symm
    · obtain ⟨⟨key, file⟩, hentry, hkey⟩ := List.mem_map.mp hrecord
      exact file_key_ne_empty (mem_mergedRecords.mp hentry).2.1 hkey
  refine ⟨sortedKeys visited, by rw [closure, hvisited]; rfl, ⟨?_, ?_⟩, ?_⟩
  · simpa using hstart List.mem_cons_self
  · simp only [mem_sortedKeys]
    constructor
    · intro file hfile link hvalue hgone
      rcases hgone with hgone | hgone
      · exact hdependent _ (.source hfile hvalue (fun he => hempty (he ▸ hgone)) hgone)
      · exact hdependent _ (.target hfile hvalue (fun he => hempty (he ▸ hgone)) hgone)
    · intro file hfile record hvalue hgone
      exact hdependent _ (.identity hfile hvalue (fun he => hempty (he ▸ hgone)) hgone)
    · intro file hfile definition hvalue step hstep hgone
      exact hdependent _ (.step hfile hvalue hstep (.inl hgone))
  · rintro T ⟨hT, hretires⟩ key hkey
    refine saturate_sound (T := T) ?_ (by simpa using hT) hvisited key (mem_sortedKeys.mp hkey)
    intro seen found hseen hfound key hkey
    obtain ⟨found', hfound', hmem⟩ := hround seen
    rw [hfound] at hfound'
    obtain rfl := Except.ok.inj hfound'
    exact retires_of_closed library hretires hseen ((hmem key).mp hkey)

/-- Whatever refers to whatever, a delete plans to retire exactly the source and all that cannot
stay without it. -/
theorem delete_closure_least (planning : Planning M T) (held : File M) {request : Request}
    (hkind : request.kind = .delete) {pair : Scheme × String}
    (hsource : target (some source) = .ok pair) :
    ∃ operation, planOperation planning (entriesOf library.files) source held request =
        .ok operation ∧ operation.kind = .delete ∧
      IsLeast {T : Set Key | source ∈ T ∧ Retires library.files T}
        {key | key ∈ operation.retiring} := by
  have hne : source ≠ "" := by
    rintro rfl
    cases hsource
  have hnew : (newOperation planning request.kind source).kind = .delete := hkind
  obtain ⟨retiring, hclosure, hleast⟩ := closure_ok library hnew hne
  refine ⟨{ newOperation planning request.kind source with retiring := retiring }, ?_, hkind, hleast⟩
  simp only [planOperation, if_pos hkind, hclosure]
  rfl

end Fixpoint

/-! A link and an identity that refer to each other, and a step that runs the code they start from. -/
section Circle

def circleWorkflow : WorkflowDefinition (List Nat) := ⟨"w", [⟨"s", "c", []⟩], [], 0, []⟩

def circleFiles : List (File (List Nat)) :=
  [⟨.link ⟨"l", "code-entity:c", "identity:i", []⟩, "l.json", none⟩,
    ⟨.identity ⟨"i", "link-entity:l", 0, 0, []⟩, "i.json", none⟩,
    ⟨.workflow circleWorkflow, "w.json", none⟩]

theorem circleWorkflow_valid : ValidDefinition circleWorkflow := ⟨by decide, by decide⟩

def circle : Library (List Nat) where
  files := circleFiles
  whole := by decide
  distinct := by decide
  ids := by decide
  definitions := by
    intro file hfile definition hvalue
    simp only [circleFiles, List.mem_cons, List.not_mem_nil, or_false] at hfile
    rcases hfile with rfl | rfl | rfl
    · cases hvalue
    · cases hvalue
    · cases hvalue
      exact circleWorkflow_valid

/-- Fresh ids are runs of one letter, and nothing is loaded. -/
def Planning.plain : Planning M T where
  session := Session.plain
  uuid n := String.ofList (List.replicate (n + 1) 'u')
  now := 0
  captures _ := .ok []

theorem delete_closure_least_circle : ∃ operation,
    planOperation (T := Unit) .plain (entriesOf circle.files) "code-entity:c"
      ⟨.code ⟨⟨"", "fnl", "", .number 0⟩, "c", 0, 0⟩, "c.json", none⟩
      ⟨.delete, some "code-entity:c", none⟩ = .ok operation ∧ operation.kind = .delete ∧
    IsLeast {T : Set Key | "code-entity:c" ∈ T ∧ Retires circle.files T}
      {key | key ∈ operation.retiring} := by
  have hsource : target (some "code-entity:c") = .ok (.codeEntity, "c") := rfl
  exact delete_closure_least circle .plain _ rfl hsource

end Circle

end Space2.ReferenceLifecycle
