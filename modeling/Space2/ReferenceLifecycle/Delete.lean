import Space2.ReferenceLifecycle.Applied
import Space2.ReferenceLifecycle.Closure
import Space2.ReferenceLifecycle.Members

/-!
# Integrity after a delete

A delete rewrites nothing: it takes out the retired records and the references to them. What it
retires is closed under links, identities and steps that refer to it, so no reference that stays
leads to a retired key, and each leads where it led before.
-/

namespace Space2.ReferenceLifecycle
open Base

variable {M T : Type}

section Operation
variable (library : Library M) {source : Key} {operation : Operation}

/-- The operation a delete of the source plans. -/
structure Deletes (source : Key) (operation : Operation) : Prop where
  kind : operation.kind = .delete
  plan : operation.referencePlan = ⟨[], []⟩
  least : IsLeast {T : Set Key | source ∈ T ∧ Retires library.files T}
    {key | key ∈ operation.retiring}

theorem deletes_of_plan {planning : Planning M T} {held : File M} {request : Request}
    (hkind : request.kind = .delete) (hsource : ∃ pair, target (some source) = .ok pair)
    (h : planOperation planning (entriesOf library.files) source held request = .ok operation) :
    Deletes library source operation := by
  have hne : source ≠ "" := by
    rintro rfl
    obtain ⟨pair, hpair⟩ := hsource
    cases hpair
  have hnew : (newOperation planning request.kind source).kind = .delete := hkind
  obtain ⟨retiring, hclosure, hleast⟩ := closure_ok library hnew hne
  simp only [planOperation, if_pos hkind, hclosure] at h
  obtain rfl := Except.ok.inj h
  exact ⟨hkind, rfl, hleast⟩

theorem file_target {file : File M} (hfile : file ∈ library.files)
    (hdomain : file.value.domain = some .linkEntity ∨ file.value.domain = some .identity) :
    ∃ pair, target (some file.value.address) = .ok pair := by
  rcases hdomain with hdomain | hdomain <;>
    have hid := library.ids file hfile (by simp [hdomain]) <;>
    cases hvalue : file.value <;> simp [hvalue, Value.domain] at hdomain <;> rw [hvalue] at hid
  · exact ⟨_, target_address .linkEntity hid (by decide)⟩
  · exact ⟨_, target_address .identity hid (by decide)⟩

variable {library}

/-- Only keys of supported schemes are retired. -/
theorem Deletes.supported (h : Deletes library source operation)
    (hsource : ∃ pair, target (some source) = .ok pair) {key : Key}
    (hkey : key ∈ operation.retiring) : ∃ pair, target (some key) = .ok pair := by
  have hretires : Retires library.files {key | ∃ pair, target (some key) = .ok pair} := by
    constructor
    · intro file hfile link hvalue _
      exact file_target library hfile (.inl (by rw [hvalue]; rfl))
    · intro file hfile record hvalue _
      exact file_target library hfile (.inr (by rw [hvalue]; rfl))
    · intro file hfile definition hvalue step hstep _
      have hid := library.ids file hfile (by simp [hvalue, Value.domain])
      rw [hvalue] at hid
      exact ⟨_, target_stepKey hid ((library.definitions file hfile _ hvalue).stepIds step hstep)⟩
  exact h.least.2 ⟨hsource, hretires⟩ hkey

theorem Deletes.rewrite_eq (h : Deletes library source operation) (key : Key) :
    rewrite operation key = key :=
  rewrite_of_no_rewrites (by rw [h.plan])

theorem Deletes.newValues_eq [EmptyCollection M] (h : Deletes library source operation) :
    newValues (M := M) operation = [] := by
  simp [newValues, replacements, h.kind, h.plan]

/-- Definitions and worlds are not retired. -/
theorem Deletes.retirable (h : Deletes library source operation)
    (hsource : ∃ pair, target (some source) = .ok pair) {value : Value M}
    (hwhole : value.isStep = false) (hgone : value.address ∈ operation.retiring) :
    value.retirable := by
  obtain ⟨pair, hpair⟩ := h.supported hsource hgone
  have hscheme := schemeOf_of_target hpair
  obtain ⟨rest, hrest⟩ := value.address_scheme
  have hne : value.scheme ≠ "" := by cases value <;> simp [Value.scheme, Value.domain, Domain.scheme]
  rw [hrest, schemeOf_address value.scheme_no_colon hne] at hscheme
  replace hscheme := Option.some.inj hscheme
  generalize pair.1 = scheme at hscheme
  cases value with
  | step => simp [Value.isStep] at hwhole
  | workflow | world | worldMetadata =>
    cases scheme <;> simp [Value.scheme, Value.domain, Domain.scheme, Scheme.name] at hscheme
  | _ => simp [Value.retirable, Value.domain]

/-- The places of links and identities that stay do not refer to what is retired. -/
theorem Deletes.pinned (h : Deletes library source operation) {file : File M}
    (hfile : file ∈ library.files) (hstays : file.value.address ∉ operation.retiring)
    {reference : Reference} (hreference : reference ∈ file.value.references)
    (hkind : reference.kind = .linkSource ∨ reference.kind = .linkTarget ∨
      reference.kind = .identityTarget) :
    reference.holder ∉ operation.retiring ∧ reference.target ∉ operation.retiring := by
  obtain ⟨-, hretires⟩ := h.least.1
  cases hvalue : file.value with
  | link link =>
    rw [hvalue] at hreference hstays
    simp only [Value.references, List.mem_cons, List.not_mem_nil, or_false] at hreference
    rcases hreference with rfl | rfl
    · exact ⟨hstays, fun hgone => hstays (hvalue ▸ hretires.link file hfile link hvalue (.inl hgone))⟩
    · exact ⟨hstays, fun hgone => hstays (hvalue ▸ hretires.link file hfile link hvalue (.inr hgone))⟩
  | identity record =>
    rw [hvalue] at hreference hstays
    obtain rfl := List.mem_singleton.mp hreference
    exact ⟨hstays, fun hgone => hstays (hvalue ▸ hretires.identity file hfile record hvalue hgone)⟩
  | string | code | step | worldMetadata =>
    rw [hvalue] at hreference
    exact absurd hreference List.not_mem_nil
  | list | notebook | dict | workflow =>
    rw [hvalue] at hreference
    obtain ⟨_, -, rfl⟩ := List.mem_map.mp hreference
    simp at hkind
  | world =>
    rw [hvalue] at hreference
    obtain ⟨board, -, hreference⟩ := List.mem_flatMap.mp hreference
    obtain ⟨item, -, hreference⟩ := List.mem_filterMap.mp hreference
    obtain ⟨key, -, rfl⟩ := Option.map_eq_some_iff.mp hreference
    simp at hkind

/-- Of the references of a record that stays a delete takes out those it retires, and no others. -/
theorem Deletes.references_kept (h : Deletes library source operation)
    {targetOf : Key → Option Key} {file : File M} (hfile : file ∈ library.files) {value : Value M}
    (hbecomes : Becomes operation targetOf file.value value)
    (hstays : file.value.address ∉ operation.retiring) :
    value.references = file.value.references.filter fun reference =>
      reference.holder ∉ operation.retiring ∧ reference.target ∉ operation.retiring := by
  have hrewritten : rewritten operation = id := by
    funext ⟨holder, place, key, kind⟩
    cases kind <;> simp [rewritten, h.rewrite_eq, identityTargetAfter, h.kind]
  have honce : ∀ reference, once operation reference = false := by
    intro reference
    cases hkind : reference.kind <;> simp [once, hkind, EntitiesOwner.unique, h.kind]
  rw [hbecomes.references_eq (library.definitions file hfile) fun _ _ => hstays, transformed,
    keepFirst_of_never fun reference _ => honce reference, hrewritten, List.map_id]
  apply List.filter_congr
  intro reference hreference
  have hpinned := h.pinned hfile hstays hreference
  cases hkind : reference.kind <;> simp [hkind] at hpinned <;>
    simp [dropped, hkind, h.kind, hpinned]

/-- No step whose key is retired stays in its definition. -/
theorem Deletes.step_stays (h : Deletes library source operation) {targetOf : Key → Option Key}
    {file : File M} (hfile : file ∈ library.files) {definition : WorkflowDefinition M}
    (hbecomes : Becomes operation targetOf file.value (.workflow definition))
    {step : WorkflowStep M} (hstep : step ∈ definition.steps) :
    stepKey definition.id step.id ∉ operation.retiring := by
  intro hgone
  cases hvalue : file.value with
  | workflow before =>
    rw [hvalue] at hbecomes
    cases hbecomes
    obtain ⟨hstep, hkept⟩ := List.mem_filter.mp hstep
    have hremoved : step.id ∈ WorkflowsOwner.removedSteps operation _ :=
      (mem_removedSteps (library.definitions file hfile before hvalue) hstep).mpr
        ⟨h.kind, .inr hgone⟩
    simp [hremoved] at hkept
  | _ =>
    rw [hvalue] at hbecomes
    cases hbecomes

end Operation

section Resolution
variable [DecidableEq M] [EmptyCollection M] {library : Library M} {source key terminal : Key}
  {operation : Operation} {targetOf : Key → Option Key} {after : List (File M)}

/-- A key that is not retired leads where it led before, and to nothing that is retired. -/
theorem Deletes.resolve_same (h : Deletes library source operation)
    (hyields : Yields operation targetOf library.files after) (hkey : key ∉ operation.retiring)
    (hbefore : resolveWith "" (storedTarget library.files) key = .ok terminal) :
    resolveWith "" (storedTarget after) key = .ok terminal ∧ terminal ∉ operation.retiring := by
  have hclosed : ∀ k j, k ∉ operation.retiring →
      (identityAliases (storedTarget library.files)).next k = some j → j ∉ operation.retiring := by
    intro k j hk hnext hj
    obtain ⟨-, htarget, -⟩ := next_eq_some.mp hnext
    obtain ⟨file, hfile, record, hvalue, rfl, rfl⟩ := library.storedTarget_eq_some.mp htarget
    exact hk (h.least.1.2.identity file hfile record hvalue hj)
  have hsame : ∀ k, k ∉ operation.retiring →
      (identityAliases (storedTarget after)).next (id k) =
        ((identityAliases (storedTarget library.files)).next k).map id := by
    intro k hk
    have htarget : storedTarget after k = storedTarget library.files k := by
      apply Option.ext
      intro j
      rw [hyields.storedTarget_eq_some, h.plan]
      simp [hk, identityTargetAfter, h.kind]
    simp [identityAliases, htarget]
  rw [resolveWith_eq_ok] at hbefore ⊢
  exact ⟨Aliases.follow_map hclosed hsame hkey hbefore, Aliases.follow_domain (D := (· ∉ operation.retiring)) hclosed hkey hbefore⟩

end Resolution

section Integrity

/-- A plan goes ahead only where every reference leads somewhere. -/
theorem references_resolve {library : Library M}
    (h : validateReferences (entriesOf library.files) = .ok ()) {file : File M}
    (hfile : file ∈ library.files) {reference : Reference}
    (hreference : reference ∈ file.value.references) :
    ∃ terminal, resolveWith "" (storedTarget library.files) reference.target = .ok terminal := by
  by_cases hne : reference.target = ""
  · refine ⟨"", ?_⟩
    rw [hne, resolveWith_eq_ok]
    exact Aliases.follow_last (next_of_not_identity (by decide))
  · obtain ⟨site, hsite, htarget, -⟩ := site_of_reference hreference hne
    simp only [validateReferences, bind_eq_ok] at h
    obtain ⟨-, -, hsites⟩ := h
    have hterminal := forM_eq_ok.mp hsites site (mem_allSites.mpr ⟨file, hfile, hsite⟩)
    simp only [validateTerminal, bind_eq_ok] at hterminal
    obtain ⟨terminal, hresolve, -⟩ := hterminal
    rw [resolve, library.identityTarget_eq, htarget] at hresolve
    exact ⟨terminal, hresolve⟩

variable [DecidableEq M] [EmptyCollection M]

/-- After a delete no reference leads to a retired key, no retired record is left, and the other
references stay in their order. -/
theorem delete_keeps_integrity (library : Library M) (planning : Planning M T) {request : Request}
    {intent : Intent (Value M) (Value M) T} (hkind : request.kind = .delete)
    (h : prepare planning library.files request = .ok (.intent intent)) :
    (∀ file ∈ applied intent.changes library.files, ∀ reference ∈ file.value.references,
      reference.target ∉ intent.operation.retiring ∧ ∃ terminal ∉ intent.operation.retiring,
        resolveWith "" (storedTarget library.files) reference.target = .ok terminal ∧
        resolveWith "" (storedTarget (applied intent.changes library.files)) reference.target =
          .ok terminal) ∧
    (∀ file ∈ applied intent.changes library.files, ∀ key ∈ file.value.keys,
      key ∉ intent.operation.retiring) ∧
    ∀ file ∈ library.files, file.value.address ∉ intent.operation.retiring →
      ∃ kept ∈ applied intent.changes library.files, kept.value.address = file.value.address ∧
        kept.value.references = file.value.references.filter fun reference =>
          reference.holder ∉ intent.operation.retiring ∧
            reference.target ∉ intent.operation.retiring := by
  obtain ⟨source, held, hplanned⟩ := prepare_ok h
  have hdeletes := deletes_of_plan library hkind hplanned.supported hplanned.operation
  have hyields := hplanned.yields
  have horigin : ∀ file ∈ applied intent.changes library.files, ∃ before ∈ library.files,
      Becomes intent.operation (storedTarget library.files) before.value file.value ∧
        before.value.address ∉ intent.operation.retiring := by
    intro file hfile
    obtain ⟨before, hbefore, hbecomes, hstays⟩ | hnew := hyields.origin hfile
    · refine ⟨before, hbefore, hbecomes, fun hgone => ?_⟩
      exact hstays (hdeletes.retirable hplanned.supported (library.whole before hbefore) hgone) hgone
    · rw [hdeletes.newValues_eq] at hnew
      exact absurd hnew List.not_mem_nil
  refine ⟨fun file hfile reference hreference => ?_, fun file hfile key hkey hgone => ?_,
    fun file hfile hstays => ?_⟩
  · obtain ⟨before, hbefore, hbecomes, hstays⟩ := horigin file hfile
    rw [hdeletes.references_kept hbefore hbecomes hstays, List.mem_filter] at hreference
    obtain ⟨hreference, hkept⟩ := hreference
    have hkept : reference.target ∉ intent.operation.retiring := (of_decide_eq_true hkept).2
    obtain ⟨terminal, hterminal⟩ := references_resolve hplanned.references hbefore hreference
    obtain ⟨hafter, hterminalKept⟩ := hdeletes.resolve_same hyields hkept hterminal
    exact ⟨hkept, terminal, hterminalKept, hterminal, hafter⟩
  · obtain ⟨before, hbefore, hbecomes, hstays⟩ := horigin file hfile
    rcases mem_keys.mp hkey with rfl | ⟨definition, hvalue, step, hstep, rfl⟩
    · exact hstays (hbecomes.address_eq ▸ hgone)
    · exact hdeletes.step_stays hbefore (hvalue ▸ hbecomes) hstep hgone
  · obtain ⟨value, hbecomes, kept, hmem, rfl⟩ := hyields.survives hfile fun _ => hstays
    exact ⟨kept, hmem, hbecomes.address_eq, hdeletes.references_kept hfile hbecomes hstays⟩

end Integrity

/-! A string with an identity, a link from the identity to some code, and a list of them all. -/
section Desk

def deskValues : List (Value (List Nat)) :=
  [.string ⟨"s", "text", 0, 0⟩, .code ⟨⟨"c", "fnl", "", .number 0⟩, "c", 0, 0⟩,
    .identity ⟨"i", "string-entity:s", 0, 0, []⟩,
    .link ⟨"l", "identity:i", "code-entity:c", []⟩,
    .list ⟨"n", ["string-entity:s", "code-entity:c", "identity:i", "code-entity:c"], 0, []⟩]

def desk : Library (List Nat) where
  files := deskValues.map fun value => ⟨value, value.address, some value⟩
  whole := by decide
  distinct := by decide
  ids := by decide
  definitions := by
    intro file hfile definition hvalue
    simp only [deskValues, List.map_cons, List.map_nil, List.mem_cons, List.not_mem_nil,
      or_false] at hfile
    rcases hfile with rfl | rfl | rfl | rfl | rfl <;> cases hvalue

def deskPrepared : Option (Intent (Value (List Nat)) (Value (List Nat)) Unit) :=
  prepared? (prepare .plain desk.files ⟨.delete, some "string-entity:s", none⟩)

theorem delete_keeps_integrity_desk : ∃ intent, deskPrepared = some intent ∧
    ∀ file ∈ applied intent.changes desk.files, ∀ key ∈ file.value.keys,
      key ∉ intent.operation.retiring := by
  have hprepared : deskPrepared.isSome = true := by decide +kernel
  obtain ⟨intent, hintent⟩ := Option.isSome_iff_exists.mp hprepared
  have hok := prepared?_eq_some.mp hintent
  exact ⟨intent, hintent, (delete_keeps_integrity desk .plain rfl hok).2.1⟩

end Desk

end Space2.ReferenceLifecycle
