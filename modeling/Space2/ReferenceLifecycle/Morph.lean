import Space2.ReferenceLifecycle.Applied
import Space2.ReferenceLifecycle.Delete
import Space2.ReferenceLifecycle.Members

/-!
# Wrapping raw keys in identities

A plan rewrites each raw key to an identity that names it, an existing one or one it reserves. The
spec lemma covers the morph and the migration, which differ in the target of the identity reserved
for the source.
-/

namespace Space2.ReferenceLifecycle
open Base

variable {M T : Type} {records : List (Key × File M)} {uuid : Nat → String} {timestamp : Int}
  {retarget : Key → Key} {next : Nat} {reserved keys : List Key} {plan : ReferencePlan}

theorem directIdentity_eq_some {key stable : Key} (h : directIdentity records key = some stable) :
    ∃ file, (stable, file) ∈ records ∧ isIdentity stable = true ∧
      file.value.identityTarget = some key := by
  have hmem := List.mem_of_head? h
  simp only [mem_sortedKeys, List.mem_map, List.mem_filter, Bool.and_eq_true,
    decide_eq_true_eq] at hmem
  obtain ⟨⟨_, file⟩, ⟨hrecord, hidentity, htarget⟩, rfl⟩ := hmem
  exact ⟨file, hrecord, hidentity, htarget⟩

variable (records uuid retarget keys plan) in
structure Wraps : Prop where
  origins : plan.rewrites.map Rewrite.fromKey = keys
  stable : ∀ mapping ∈ plan.rewrites, directIdentity records mapping.fromKey = some mapping.toKey ∨
    ∃ candidate ∈ plan.identities, candidate.address = mapping.toKey ∧
      candidate.targetKey = retarget mapping.fromKey
  drawn : ∀ candidate ∈ plan.identities, (∃ n, candidate.id = uuid n) ∧
    ∃ key ∈ keys, candidate.targetKey = retarget key

theorem planReferences_wraps
    (h : planReferences records uuid timestamp retarget next reserved keys = .ok plan) :
    Wraps records uuid retarget keys plan := by
  induction keys generalizing next reserved plan with
  | nil =>
    obtain rfl := pure_eq_ok.mp h
    exact ⟨rfl, by simp, by simp⟩
  | cons key rest ih =>
    rw [planReferences] at h
    cases hdirect : directIdentity records key with
    | some stable =>
      simp only [hdirect, bind_eq_ok, pure_eq_ok] at h
      obtain ⟨others, hothers, rfl⟩ := h
      obtain ⟨hkeys, hstable, hdrawn⟩ := ih hothers
      refine ⟨by simp [hkeys], List.forall_mem_cons.mpr ⟨.inl hdirect, hstable⟩, ?_⟩
      intro candidate hcandidate
      obtain ⟨hid, other, hother, htarget⟩ := hdrawn candidate hcandidate
      exact ⟨hid, other, List.mem_cons_of_mem _ hother, htarget⟩
    | none =>
      simp only [hdirect, bind_eq_ok, pure_eq_ok] at h
      obtain ⟨-, -, others, hothers, rfl⟩ := h
      obtain ⟨hkeys, hstable, hdrawn⟩ := ih hothers
      refine ⟨by simp [hkeys], List.forall_mem_cons.mpr ⟨.inr ?_, ?_⟩, ?_⟩
      · exact ⟨_, List.mem_cons_self, rfl, rfl⟩
      · intro mapping hmapping
        rcases hstable mapping hmapping with hold | ⟨candidate, hcandidate, hnew⟩
        · exact .inl hold
        · exact .inr ⟨candidate, List.mem_cons_of_mem _ hcandidate, hnew⟩
      · rw [List.forall_mem_cons]
        refine ⟨⟨⟨next, rfl⟩, key, List.mem_cons_self, rfl⟩, fun candidate hcandidate => ?_⟩
        obtain ⟨hid, other, hother, htarget⟩ := hdrawn candidate hcandidate
        exact ⟨hid, other, List.mem_cons_of_mem _ hother, htarget⟩

theorem Wraps.sorted (h : Wraps records uuid retarget keys plan) :
    Wraps records uuid retarget keys plan.sorted := by
  obtain ⟨hkeys, hstable, hdrawn⟩ := h
  have hmem : ∀ candidate, candidate ∈ plan.sorted.identities ↔ candidate ∈ plan.identities :=
    fun candidate => List.mem_insertionSort _
  refine ⟨hkeys, fun mapping hmapping => ?_, fun candidate hcandidate => ?_⟩
  · simpa only [hmem] using hstable mapping hmapping
  · exact hdrawn candidate ((hmem candidate).mp hcandidate)

section Rewriting
variable {operation : Operation} {key : Key}
  (h : Wraps records uuid retarget keys operation.referencePlan)
include h

theorem Wraps.rewrite_other (hkey : key ∉ keys) : rewrite operation key = key := by
  apply rewrite_of_not_mem
  rintro mapping hmapping rfl
  exact hkey (h.origins ▸ List.mem_map_of_mem hmapping)

/-- A wrapped key is rewritten to an identity that names it. -/
theorem Wraps.rewrite_key (hkey : key ∈ keys) :
    directIdentity records key = some (rewrite operation key) ∨
      ∃ candidate ∈ operation.referencePlan.identities,
        candidate.address = rewrite operation key ∧ candidate.targetKey = retarget key := by
  obtain ⟨-, hnone⟩ | ⟨mapping, hmapping, rfl, hrewrite⟩ := rewrite_cases operation key
  · rw [← h.origins] at hkey
    obtain ⟨mapping, hmapping, hfrom⟩ := List.mem_map.mp hkey
    exact absurd hfrom (hnone mapping hmapping)
  · rw [hrewrite]
    exact h.stable mapping hmapping

theorem Wraps.rewrite_identity (hkey : key ∈ keys) : isIdentity (rewrite operation key) = true := by
  rcases h.rewrite_key hkey with hdirect | ⟨candidate, -, haddress, -⟩
  · obtain ⟨-, -, hidentity, -⟩ := directIdentity_eq_some hdirect
    exact hidentity
  · rw [← haddress]
    exact isIdentity_identity _

end Rewriting

end Space2.ReferenceLifecycle

/-!
# References across a morph

A morph renames the source to its replacement. Every raw key with a record or of a foreign scheme
is wrapped in an identity on the way, so references change their keys, but each leads to what it
led to before, renamed. Fresh ids are taken to be new: no reference names an identity that is
reserved under one of them.
-/

namespace Space2.ReferenceLifecycle
open Base

variable {M T : Type}

def renamed (source code key : Key) : Key := if key = source then code else key

/-- A reference to what an identity of this id would be. -/
def Unheard (library : Library M) (uuid : Nat → String) : Prop :=
  ∀ file ∈ library.files, ∀ reference ∈ file.value.references, ∀ n,
    reference.target ≠ address "identity" (uuid n)

section Operation
variable (planning : Planning M T) (library : Library M) {source code key : Key}
  {operation : Operation}

/-- The operation a morph of the source plans. -/
structure Morphs (source code : Key) (operation : Operation) : Prop where
  kind : operation.kind = .morph
  sourceKey : operation.sourceKey = some source
  targetKey : operation.targetKey = some code
  retiring : operation.retiring = [source]
  minted : code = address "code-entity" (planning.uuid 0)
  replacement : ∃ replacement : Replacement, operation.replacement = some replacement ∧
    address "code-entity" replacement.id = code
  wraps : Wraps (mergedRecords (entriesOf library.files)) planning.uuid (renamed source code)
    (rawKeys (entriesOf library.files)) operation.referencePlan

theorem morphs_of_plan {held : File M} {request : Request} (hkind : request.kind = .morph)
    (h : planOperation planning (entriesOf library.files) source held request = .ok operation) :
    Morphs planning library source (address "code-entity" (planning.uuid 0)) operation := by
  have hdelete : request.kind ≠ .delete := by simp [hkind]
  simp only [planOperation, if_neg hdelete, morphOperation, bind_eq_ok, pure_eq_ok] at h
  obtain ⟨payload, -, -, -, plan, hplan, rfl⟩ := h
  exact ⟨hkind, rfl, rfl, rfl, rfl, ⟨_, rfl, rfl⟩, (planReferences_wraps hplan).sorted⟩

variable {planning library}

theorem mem_rawKeys : key ∈ rawKeys (entriesOf library.files) ↔
    ∃ file ∈ library.files, ∃ site ∈ recordSites file.value,
      wrapped (mergedRecords (entriesOf library.files)) site = true ∧ site.targetKey = key := by
  simp only [rawKeys, mem_sortedKeys, List.mem_dedup, List.mem_map, List.mem_filter, mem_allSites]
  constructor
  · rintro ⟨site, ⟨⟨file, hfile, hsite⟩, hwrapped⟩, rfl⟩
    exact ⟨file, hfile, site, hsite, hwrapped, rfl⟩
  · rintro ⟨file, hfile, site, hsite, hwrapped, rfl⟩
    exact ⟨site, ⟨⟨file, hfile, hsite⟩, hwrapped⟩, rfl⟩

theorem raw_not_identity (h : key ∈ rawKeys (entriesOf library.files)) :
    key ≠ "" ∧ isIdentity key = false := by
  obtain ⟨-, -, site, -, hwrapped, rfl⟩ := mem_rawKeys.mp h
  simp only [wrapped, Bool.and_eq_true, Bool.not_eq_true', decide_eq_true_eq] at hwrapped
  exact ⟨hwrapped.1.1.2, hwrapped.1.2⟩

/-- A reference to a record is wrapped unless it is the target of an identity or the code of a
step. -/
theorem raw_of_reference {file held : File M} (hfile : file ∈ library.files)
    (hheld : held ∈ library.files) {reference : Reference}
    (hreference : reference ∈ file.value.references) (hkind : reference.kind.eligible = true)
    (hkey : reference.target ∈ held.value.keys) (hidentity : isIdentity reference.target = false) :
    reference.target ∈ rawKeys (entriesOf library.files) := by
  have hne := file_key_ne_empty hkey
  obtain ⟨site, hsite, htarget, hsame⟩ := site_of_reference hreference hne
  have hrecord : record? (mergedRecords (entriesOf library.files)) site.targetKey = some held :=
    library.record?_eq_some.mpr ⟨hheld, htarget ▸ hkey, listed_of_whole (library.whole held hheld)⟩
  refine mem_rawKeys.mpr ⟨file, hfile, site, hsite, ?_, htarget⟩
  simp [wrapped, hsame, hkind, htarget, hne, hidentity, htarget ▸ hrecord]

end Operation

section Resolution
variable [DecidableEq M] [EmptyCollection M] {planning : Planning M T} {library : Library M}
  {source code key terminal : Key} {operation : Operation} {after : List (File M)}
  {reference : Reference}

structure MorphKeys (source code : Key) : Prop where
  sourceScheme : schemeOf source = some "string-entity"
  codeScheme : schemeOf code = some "code-entity"

theorem MorphKeys.source_not_identity (h : MorphKeys source code) : isIdentity source = false :=
  isIdentity_of_scheme h.sourceScheme (by decide)

theorem MorphKeys.code_not_identity (h : MorphKeys source code) : isIdentity code = false :=
  isIdentity_of_scheme h.codeScheme (by decide)

theorem MorphKeys.identity_ne_source (h : MorphKeys source code) (hkey : isIdentity key = true) :
    key ≠ source := by
  rintro rfl
  rw [h.source_not_identity] at hkey
  cases hkey

theorem MorphKeys.code_ne_source (h : MorphKeys source code) : code ≠ source := by
  rintro rfl
  have hscheme := h.sourceScheme.symm.trans h.codeScheme
  exact absurd hscheme (by decide)

theorem MorphKeys.ne_empty (h : MorphKeys source code) : source ≠ "" ∧ code ≠ "" := by
  constructor
  · rintro rfl
    exact absurd h.sourceScheme (by decide)
  · rintro rfl
    exact absurd h.codeScheme (by decide)

theorem MorphKeys.renamed_ne_source (h : MorphKeys source code) (key : Key) :
    renamed source code key ≠ source := by
  by_cases hkey : key = source
  · rw [renamed, if_pos hkey]
    exact h.code_ne_source
  · rwa [renamed, if_neg hkey]

theorem MorphKeys.renamed_eq_empty (h : MorphKeys source code) :
    renamed source code key = "" ↔ key = "" := by
  by_cases hkey : key = source
  · rw [renamed, if_pos hkey, hkey]
    simp [h.ne_empty]
  · rw [renamed, if_neg hkey]

theorem MorphKeys.renamed_not_identity (h : MorphKeys source code) (hkey : isIdentity key = false) :
    isIdentity (renamed source code key) = false := by
  by_cases hsame : key = source
  · rw [renamed, if_pos hsame]
    exact h.code_not_identity
  · rwa [renamed, if_neg hsame]

variable (hkeys : MorphKeys source code) (h : Morphs planning library source code operation)
  (hyields : Yields operation (storedTarget library.files) library.files after)
include hkeys h

omit hkeys [DecidableEq M] [EmptyCollection M] in
theorem Morphs.identityTargetAfter_eq (key : Key) :
    identityTargetAfter operation key = renamed source code key := by
  simp [identityTargetAfter, renamed, h.kind, h.sourceKey, h.targetKey]

include hyields

/-- The identities known before name the renamed targets after. -/
theorem Morphs.next_renamed (hfresh : ∀ n, key ≠ address "identity" (planning.uuid n)) :
    (identityAliases (storedTarget after)).next (renamed source code key) =
      ((identityAliases (storedTarget library.files)).next key).map (renamed source code) := by
  by_cases hidentity : isIdentity key = true
  · have hsource := hkeys.identity_ne_source hidentity
    have htarget : storedTarget after key =
        (storedTarget library.files key).map (renamed source code) := by
      apply Option.ext
      intro target
      rw [hyields.storedTarget_eq_some, Option.map_eq_some_iff, h.retiring]
      constructor
      · rintro (⟨-, before, hbefore, rfl⟩ | ⟨candidate, hcandidate, rfl, -⟩)
        · exact ⟨before, hbefore, (h.identityTargetAfter_eq before).symm⟩
        · obtain ⟨⟨n, hid⟩, -⟩ := h.wraps.drawn candidate hcandidate
          exact absurd (by rw [ReservedIdentity.address, hid]) (hfresh n)
      · rintro ⟨before, hbefore, rfl⟩
        exact .inl ⟨by simpa using hsource, before, hbefore, h.identityTargetAfter_eq before⟩
    simp only [renamed, if_neg hsource, identityAliases, hidentity, if_true, htarget]
    cases storedTarget library.files key with
    | none => rfl
    | some before =>
      have hempty : renamed source code before = "" ↔ before = "" := hkeys.renamed_eq_empty
      by_cases hbefore : before = ""
      · subst hbefore
        simp [Option.filter, hempty.mpr rfl]
      · simp [Option.filter, hbefore, hempty]
  · rw [Bool.not_eq_true] at hidentity
    rw [next_of_not_identity hidentity, next_of_not_identity (hkeys.renamed_not_identity hidentity)]
    rfl

/-- A wrapped key leads to its new name through the identity it is rewritten to. -/
theorem Morphs.resolve_wrapped (hkey : key ∈ rawKeys (entriesOf library.files)) :
    resolveWith "" (storedTarget after) (rewrite operation key) =
      .ok (renamed source code key) := by
  obtain ⟨hne, hidentity⟩ := raw_not_identity hkey
  have hsome : storedTarget after (rewrite operation key) = some (renamed source code key) := by
    rw [hyields.storedTarget_eq_some]
    rcases h.wraps.rewrite_key hkey with hdirect | ⟨candidate, hcandidate, haddress, htarget⟩
    · obtain ⟨file, hrecord, hstable, htarget⟩ := directIdentity_eq_some hdirect
      obtain ⟨hfile, hmem, -⟩ := mem_mergedRecords.mp hrecord
      obtain ⟨haddress, record, hvalue⟩ := identity_of_key hmem hstable
      have hsource := hkeys.identity_ne_source hstable
      refine .inl ⟨by simpa [h.retiring] using hsource, key, ?_, h.identityTargetAfter_eq key⟩
      rw [hvalue] at htarget
      exact library.storedTarget_eq_some.mpr
        ⟨file, hfile, record, hvalue, haddress.symm, Option.some.inj htarget⟩
    · exact .inr ⟨candidate, hcandidate, haddress, htarget⟩
  have hnext : (identityAliases (storedTarget after)).next (rewrite operation key) =
      some (renamed source code key) :=
    next_eq_some.mpr ⟨h.wraps.rewrite_identity hkey, hsome, fun hempty =>
      hne (hkeys.renamed_eq_empty.mp hempty)⟩
  rw [resolveWith_eq_ok]
  exact Aliases.follow_wrapped hnext
    (next_of_not_identity (hkeys.renamed_not_identity hidentity)) (by decide)

/-- A reference no morph wraps leads to what it led to before, renamed. -/
theorem Morphs.resolve_renamed (hunheard : Unheard library planning.uuid)
    (hfresh : ∀ n, key ≠ address "identity" (planning.uuid n))
    (hbefore : resolveWith "" (storedTarget library.files) key = .ok terminal) :
    resolveWith "" (storedTarget after) (renamed source code key) =
      .ok (renamed source code terminal) := by
  rw [resolveWith_eq_ok] at hbefore ⊢
  apply Aliases.follow_map (D := fun key => ∀ n, key ≠ address "identity" (planning.uuid n))
    ?_ (fun k hk => h.next_renamed hkeys hyields hk) hfresh hbefore
  intro k j _ hnext n
  obtain ⟨-, htarget, -⟩ := next_eq_some.mp hnext
  obtain ⟨file, hfile, record, hvalue, -, rfl⟩ := library.storedTarget_eq_some.mp htarget
  exact hunheard file hfile ⟨_, [.name "target-key"], record.targetKey, .identityTarget⟩
    (by rw [hvalue]; exact List.mem_singleton_self _) n

/-- Every reference keeps its place, and its new key leads to what the old one led to, renamed. -/
theorem Morphs.reference_moved {file held : File M} (hfile : file ∈ library.files)
    (hheld : held ∈ library.files ∧ source ∈ held.value.keys)
    (hunheard : Unheard library planning.uuid) (hreference : reference ∈ file.value.references)
    (hbefore : resolveWith "" (storedTarget library.files) reference.target = .ok terminal) :
    (rewritten operation reference).target ≠ source ∧
      resolveWith "" (storedTarget after) (rewritten operation reference).target =
        .ok (renamed source code terminal) := by
  have hfresh := hunheard file hfile reference hreference
  have hstays : reference.target ≠ source → reference.target ∉ rawKeys (entriesOf library.files) →
      rewrite operation reference.target ≠ source ∧
      resolveWith "" (storedTarget after) (rewrite operation reference.target) =
        .ok (renamed source code terminal) := by
    intro hsource hraw
    have hresolve := h.resolve_renamed hkeys hyields hunheard hfresh hbefore
    rw [renamed, if_neg hsource] at hresolve
    rw [h.wraps.rewrite_other hraw]
    exact ⟨hsource, hresolve⟩
  have heligible : reference.kind.eligible = true →
      rewrite operation reference.target ≠ source ∧
      resolveWith "" (storedTarget after) (rewrite operation reference.target) =
        .ok (renamed source code terminal) := by
    intro hkind
    by_cases hraw : reference.target ∈ rawKeys (entriesOf library.files)
    · have hidentity := (raw_not_identity hraw).2
      have hsame : terminal = reference.target := by
        rw [resolveWith_eq_ok, Aliases.follow_last (next_of_not_identity hidentity)] at hbefore
        exact (Except.ok.inj hbefore).symm
      rw [hsame]
      exact ⟨hkeys.identity_ne_source (h.wraps.rewrite_identity hraw),
        h.resolve_wrapped hkeys hyields hraw⟩
    · apply hstays _ hraw
      intro heq
      apply hraw
      exact raw_of_reference hfile hheld.1 hreference hkind (heq ▸ hheld.2)
        (heq ▸ hkeys.source_not_identity)
  obtain ⟨holder, place, key, kind⟩ := reference
  cases kind with
  | identityTarget =>
    simp only [rewritten, h.identityTargetAfter_eq]
    exact ⟨hkeys.renamed_ne_source _, h.resolve_renamed hkeys hyields hunheard hfresh hbefore⟩
  | workflowCode =>
    have hcode : ∃ id, key = address "code-entity" id := code_of_reference hreference rfl
    obtain ⟨id, rfl⟩ := hcode
    have hscheme : schemeOf (address "code-entity" id) = some "code-entity" :=
      schemeOf_address (by decide) (by decide) id
    have hsource : address "code-entity" id ≠ source := by
      rintro rfl
      exact absurd (hscheme.symm.trans hkeys.sourceScheme) (by decide)
    have hresolve := h.resolve_renamed hkeys hyields hunheard hfresh hbefore
    simp only [renamed, if_neg hsource] at hresolve
    exact ⟨hsource, hresolve⟩
  | _ => exact heligible rfl

/-- The members of a list or a notebook that are kept once. -/
def repeatable (reference : Reference) : Bool :=
  (reference.kind = .listItem || reference.kind = .notebookItem) && isIdentity reference.target

omit hkeys hyields [DecidableEq M] [EmptyCollection M] in
theorem Morphs.transformed_eq (references : List Reference) :
    transformed operation references =
      keepFirst repeatable (references.map (rewritten operation)) := by
  have honce : once operation = repeatable := by
    funext ⟨holder, place, key, kind⟩
    cases kind <;> simp [once, repeatable, EntitiesOwner.unique, h.kind]
  have hdropped : ∀ reference ∈ references, (!dropped operation reference) = true := by
    intro reference _
    cases hkind : reference.kind <;> simp [dropped, hkind, h.kind]
  rw [transformed, honce, List.filter_eq_self.mpr hdropped]

omit hyields [DecidableEq M] in
/-- The record an operation creates at a code key, and the identities it reserves, do not refer to
the source. -/
theorem Morphs.new_references {value : Value M} (hvalue : value ∈ newValues operation)
    (hreference : reference ∈ value.references) :
    reference.target ≠ source ∧ ∃ terminal,
      resolveWith "" (storedTarget after) reference.target = .ok terminal ∧ terminal ≠ source := by
  rcases List.mem_append.mp hvalue with hcode | hreserved
  · simp only [replacements] at hcode
    split at hcode
    next =>
      obtain rfl := List.mem_singleton.mp hcode
      exact absurd hreference List.not_mem_nil
    next => exact absurd hcode List.not_mem_nil
  · obtain ⟨candidate, hcandidate, rfl⟩ := List.mem_map.mp hreserved
    obtain rfl := List.mem_singleton.mp hreference
    obtain ⟨-, key, hkey, htarget⟩ := h.wraps.drawn candidate hcandidate
    have hidentity := hkeys.renamed_not_identity (raw_not_identity hkey).2
    simp only [IdentitiesOwner.reservedRecord, htarget]
    refine ⟨hkeys.renamed_ne_source key, _, ?_, hkeys.renamed_ne_source key⟩
    rw [resolveWith_eq_ok]
    exact Aliases.follow_last (next_of_not_identity hidentity)

end Resolution

section Meaning
variable [DecidableEq M] [EmptyCollection M]

/-- A morph moves what led to the source to its replacement and leaves what everything else leads
to; lists keep their order and lose repeated identities only. -/
theorem morph_preserves_meaning (library : Library M) (planning : Planning M T) {request : Request}
    {intent : Intent (Value M) (Value M) T} (hkind : request.kind = .morph)
    (hunheard : Unheard library planning.uuid)
    (h : prepare planning library.files request = .ok (.intent intent)) :
    ∃ source code, request.sourceKey = some source ∧ intent.operation.targetKey = some code ∧
      (∃ file ∈ applied intent.changes library.files, file.value.address = code) ∧
      (∀ file ∈ library.files, file.value.address ≠ source →
        ∃ kept ∈ applied intent.changes library.files, kept.value.address = file.value.address ∧
          kept.value.references =
            keepFirst repeatable (file.value.references.map (rewritten intent.operation)) ∧
          ∀ reference ∈ file.value.references, ∃ terminal,
            resolveWith "" (storedTarget library.files) reference.target = .ok terminal ∧
            resolveWith "" (storedTarget (applied intent.changes library.files))
              (rewritten intent.operation reference).target = .ok (renamed source code terminal)) ∧
      ∀ file ∈ applied intent.changes library.files, ∀ reference ∈ file.value.references,
        reference.target ≠ source ∧ ∃ terminal,
          resolveWith "" (storedTarget (applied intent.changes library.files)) reference.target =
            .ok terminal ∧ terminal ≠ source := by
  obtain ⟨source, held, hplanned⟩ := prepare_ok h
  have hmorphs := morphs_of_plan planning library hkind hplanned.operation
  have hyields := hplanned.yields
  have hkeys : MorphKeys source (address "code-entity" (planning.uuid 0)) :=
    ⟨hplanned.scheme hkind, schemeOf_address (by decide) (by decide) _⟩
  have hmoved : ∀ file ∈ library.files, ∀ reference ∈ file.value.references, ∃ terminal,
      resolveWith "" (storedTarget library.files) reference.target = .ok terminal ∧
      (rewritten intent.operation reference).target ≠ source ∧
      resolveWith "" (storedTarget (applied intent.changes library.files))
        (rewritten intent.operation reference).target =
          .ok (renamed source (address "code-entity" (planning.uuid 0)) terminal) := by
    intro file hfile reference hreference
    obtain ⟨terminal, hterminal⟩ := references_resolve hplanned.references hfile hreference
    exact ⟨terminal, hterminal, hmorphs.reference_moved hkeys hyields hfile hplanned.found hunheard
      hreference hterminal⟩
  have hreferences : ∀ file ∈ library.files, ∀ value : Value M,
      Becomes intent.operation (storedTarget library.files) file.value value →
      value.references =
        keepFirst repeatable (file.value.references.map (rewritten intent.operation)) := by
    intro file hfile value hbecomes
    rw [hbecomes.references_eq (library.definitions file hfile) fun hdelete => by
      simp [hmorphs.kind] at hdelete, hmorphs.transformed_eq]
  refine ⟨source, _, hplanned.key, hmorphs.targetKey, ?_, fun file hfile hne => ?_,
    fun file hfile reference hreference => ?_⟩
  · obtain ⟨replacement, hreplacement, haddress⟩ := hmorphs.replacement
    have hnew : Value.code (EntitiesOwner.codeRecord replacement) ∈
        newValues (M := M) intent.operation := by
      simp [newValues, replacements, hmorphs.kind, hreplacement]
    obtain ⟨file, hfile, hvalue⟩ := (hyields.mem _).mpr (.inr hnew)
    exact ⟨file, hfile, by rw [hvalue]; exact haddress⟩
  · have hstays : file.value.address ∉ intent.operation.retiring := by simpa [hmorphs.retiring] using hne
    obtain ⟨value, hbecomes, kept, hkept, rfl⟩ := hyields.survives hfile fun _ => hstays
    refine ⟨kept, hkept, hbecomes.address_eq, hreferences file hfile _ hbecomes, ?_⟩
    intro reference hreference
    obtain ⟨terminal, hbefore, -, hafter⟩ := hmoved file hfile reference hreference
    exact ⟨terminal, hbefore, hafter⟩
  · obtain ⟨before, hbefore, hbecomes, -⟩ | hnew := hyields.origin hfile
    · rw [hreferences before hbefore _ hbecomes, mem_keepFirst] at hreference
      obtain ⟨old, hold, rfl⟩ := List.mem_map.mp hreference
      obtain ⟨terminal, -, hsource, hafter⟩ := hmoved before hbefore old hold
      exact ⟨hsource, _, hafter, hkeys.renamed_ne_source terminal⟩
    · exact hmorphs.new_references hkeys hnew hreference

/-! The string of the desk becomes code. -/

def deskMorphed : Option (Intent (Value (List Nat)) (Value (List Nat)) Unit) :=
  prepared? (prepare .plain desk.files
    ⟨.morph, some "string-entity:s", some ⟨"s", "fnl", "text", .number 0⟩⟩)

theorem desk_unheard : Unheard desk (Planning.plain (M := List Nat) (T := Unit)).uuid := by
  intro file hfile reference hreference n heq
  have htargets : ∀ file ∈ desk.files, ∀ reference ∈ file.value.references,
      reference.target ∈ ["string-entity:s", "code-entity:c", "identity:i"] := by decide
  have hmem := htargets file hfile reference hreference
  have hidentity : isIdentity reference.target = true := by
    rw [heq]
    exact isIdentity_identity _
  simp only [List.mem_cons, List.not_mem_nil, or_false] at hmem
  rcases hmem with hstring | hcode | hknown
  · rw [hstring] at hidentity
    exact absurd hidentity (by decide)
  · rw [hcode] at hidentity
    exact absurd hidentity (by decide)
  · have haddress : address "identity" "i" = "identity:i" := by decide
    have hid := address_injective (haddress.trans (hknown.symm.trans heq))
    have hlist := congrArg String.toList hid
    simp [Planning.plain, List.replicate_succ] at hlist

theorem morph_preserves_meaning_desk : ∃ intent, deskMorphed = some intent ∧
    ∃ source code, some "string-entity:s" = some source ∧ intent.operation.targetKey = some code ∧
      ∃ file ∈ applied intent.changes desk.files, file.value.address = code := by
  have hprepared : deskMorphed.isSome = true := by decide +kernel
  obtain ⟨intent, hintent⟩ := Option.isSome_iff_exists.mp hprepared
  have hok := prepared?_eq_some.mp hintent
  obtain ⟨source, code, hsource, hcode, hfile, -⟩ :=
    morph_preserves_meaning desk .plain rfl desk_unheard hok
  exact ⟨intent, hintent, source, code, hsource, hcode, hfile⟩

end Meaning

end Space2.ReferenceLifecycle
