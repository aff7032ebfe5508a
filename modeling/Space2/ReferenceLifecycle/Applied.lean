import Space2.ReferenceLifecycle.Changes

/-!
# The files after an operation

`applied` puts the after-images of the changes in place of the records at their addresses. The
files after an operation hold what becomes of each record together with the new records, each at
an address of its own.
-/

namespace Space2.ReferenceLifecycle
open Base

variable {M T : Type}

def applied (changes : List (Change (Value M))) (files : List (File M)) : List (File M) :=
  (files.filter fun file => changes.all (·.address ≠ file.value.address)).map reload ++
    changes.filterMap fun change => change.afterBytes.map fun value =>
      ⟨value, change.path, some value⟩

theorem mem_applied {changes : List (Change (Value M))} {files : List (File M)} {after : File M} :
    after ∈ applied changes files ↔
      (∃ file ∈ files, (∀ change ∈ changes, change.address ≠ file.value.address) ∧
        after = reload file) ∨
      ∃ change ∈ changes, ∃ value, change.afterBytes = some value ∧
        after = ⟨value, change.path, some value⟩ := by
  simp only [applied, List.mem_append, List.mem_map, List.mem_filter, List.all_eq_true,
    decide_eq_true_eq, List.mem_filterMap, Option.map_eq_some_iff, and_assoc, @eq_comm _ after]

section Covered
variable [DecidableEq M] [EmptyCollection M] {library : Library M} {operation : Operation}
  {recordPath : Domain → String → Except String String} {targetOf : Key → Option Key}
  {changes : List (Change (Value M))} {change : Change (Value M)} {file : File M}

omit [DecidableEq M] [EmptyCollection M] in
/-- A record is created where no file is. -/
theorem Creates.elsewhere {value : Value M} (hcreates : Creates library.files recordPath change value)
    (hfile : file ∈ library.files) : change.address ≠ file.value.address := by
  intro haddress
  have hfound := library.fileAt?_eq_some.mpr ⟨hfile, haddress.symm.trans hcreates.address⟩
  rw [hcreates.absent] at hfound
  cases hfound

variable (h : Covers operation recordPath targetOf library.files changes)
include h

/-- A change is the only one at its address, or it creates a record. -/
theorem Covers.change_cases (hchange : change ∈ changes) :
    (∃ file ∈ library.files, change.address = file.value.address ∧
      fileChanges operation targetOf file = .ok [change] ∧
      afterValue operation targetOf file.value = .ok change.afterBytes) ∨
    ∃ value ∈ newValues operation, Creates library.files recordPath change value := by
  obtain ⟨file, hfile, own, hown, hmem⟩ | hcreates := h.origin change hchange
  · left
    obtain ⟨image, himage, ⟨settled, rfl, haddress, rfl⟩ | ⟨rfl, -⟩⟩ := fileChanges_settles hown
    · obtain rfl := List.mem_singleton.mp hmem
      exact ⟨file, hfile, haddress, hown, himage⟩
    · exact absurd hmem List.not_mem_nil
  · exact .inr hcreates

/-- What the changes say of a file is what becomes of its record. -/
theorem Covers.file_cases (hfile : file ∈ library.files) :
    ∃ image, afterValue operation targetOf file.value = .ok image ∧
      ((∃ change ∈ changes, change.address = file.value.address ∧ change.afterBytes = image) ∨
        (∀ change ∈ changes, change.address ≠ file.value.address) ∧ Stays file image) := by
  obtain ⟨own, hown, hmem⟩ := h.own file hfile
  obtain ⟨image, himage, ⟨change, rfl, haddress, rfl⟩ | ⟨rfl, hstays⟩⟩ := fileChanges_settles hown
  · exact ⟨_, himage, .inl ⟨change, hmem change (List.mem_singleton_self _), haddress, rfl⟩⟩
  · refine ⟨_, himage, .inr ⟨fun change hchange haddress => ?_, hstays⟩⟩
    obtain ⟨other, hother, hsame, hothers, -⟩ | ⟨value, -, hcreates⟩ := h.change_cases hchange
    · obtain rfl := library.address_unique hfile hother (haddress.symm.trans hsame)
      cases hown.symm.trans hothers
    · exact hcreates.elsewhere hfile haddress

theorem Covers.new_unique {value other : Value M} (hvalue : value ∈ newValues operation)
    (hother : other ∈ newValues operation) (hsame : value.address = other.address) :
    value = other := by
  have hcode : ∀ value ∈ replacements (M := M) operation, ∃ replacement,
      value = .code replacement ∧ operation.replacement.map EntitiesOwner.codeRecord = some replacement := by
    intro value hvalue
    simp only [replacements] at hvalue
    split at hvalue
    next replacement _ hreplacement =>
      exact ⟨_, List.mem_singleton.mp hvalue, by rw [hreplacement]; rfl⟩
    next => exact absurd hvalue List.not_mem_nil
  rcases List.mem_append.mp hvalue with hvalue | hvalue <;>
    rcases List.mem_append.mp hother with hother | hother
  · obtain ⟨replacement, rfl, hreplacement⟩ := hcode value hvalue
    obtain ⟨replacement', rfl, hreplacement'⟩ := hcode other hother
    rw [Option.some.inj (hreplacement.symm.trans hreplacement')]
  · obtain ⟨replacement, rfl, -⟩ := hcode value hvalue
    obtain ⟨candidate, -, rfl⟩ := List.mem_map.mp hother
    exact absurd (address_scheme (by decide) (by decide) hsame) (by decide)
  · obtain ⟨replacement, rfl, -⟩ := hcode other hother
    obtain ⟨candidate, -, rfl⟩ := List.mem_map.mp hvalue
    exact absurd (address_scheme (by decide) (by decide) hsame) (by decide)
  · obtain ⟨candidate, hcandidate, rfl⟩ := List.mem_map.mp hvalue
    obtain ⟨candidate', hcandidate', rfl⟩ := List.mem_map.mp hother
    have hid : candidate.id = candidate'.id := address_injective hsame
    rw [List.inj_on_of_nodup_map h.distinct hcandidate hcandidate' hid]

/-- Changes at one address say the same. -/
theorem Covers.change_unique {other : Change (Value M)} (hchange : change ∈ changes)
    (hother : other ∈ changes) (hsame : change.address = other.address) :
    change.path = other.path ∧ change.afterBytes = other.afterBytes := by
  obtain ⟨file, hfile, hat, hown, -⟩ | ⟨value, hvalue, hcreates⟩ := h.change_cases hchange <;>
    obtain ⟨file', hfile', hat', hown', -⟩ | ⟨value', hvalue', hcreates'⟩ := h.change_cases hother
  · obtain rfl := library.address_unique hfile hfile' (hat.symm.trans (hsame.trans hat'))
    rw [hown] at hown'
    obtain rfl := List.singleton_injective (Except.ok.inj hown')
    exact ⟨rfl, rfl⟩
  · exact absurd (hsame.symm.trans hat) (hcreates'.elsewhere hfile)
  · exact absurd (hsame.trans hat') (hcreates.elsewhere hfile')
  · obtain rfl := h.new_unique hvalue hvalue'
      (hcreates.address.symm.trans (hsame.trans hcreates'.address))
    obtain ⟨domain, hdomain, hpath⟩ := hcreates.path
    obtain ⟨domain', hdomain', hpath'⟩ := hcreates'.path
    obtain rfl := Option.some.inj (hdomain.symm.trans hdomain')
    exact ⟨Except.ok.inj (hpath.symm.trans hpath'), hcreates.image.trans hcreates'.image.symm⟩

/-- A change leaves its record at the address it is about. -/
theorem Covers.image_address {value : Value M} (hchange : change ∈ changes)
    (himage : change.afterBytes = some value) : value.address = change.address := by
  obtain ⟨file, -, haddress, -, hafter⟩ | ⟨created, -, hcreates⟩ := h.change_cases hchange
  · rw [himage] at hafter
    exact (becomes_of_after hafter).address_eq.trans haddress.symm
  · rw [Option.some.inj (himage.symm.trans hcreates.image), hcreates.address]

theorem Covers.kept_address (hfile : file ∈ library.files)
    (hkept : ∀ change ∈ changes, change.address ≠ file.value.address) :
    (reload file).value.address = file.value.address := by
  obtain ⟨image, himage, ⟨change, hchange, haddress, -⟩ | ⟨-, hstays⟩⟩ := h.file_cases hfile
  · exact absurd haddress (hkept change hchange)
  · rw [hstays.value] at himage
    exact (becomes_of_after himage).address_eq

end Covered

section Yields
variable [DecidableEq M] [EmptyCollection M] {library : Library M} {operation : Operation}
  {recordPath : Domain → String → Except String String} {targetOf : Key → Option Key}
  {changes : List (Change (Value M))}

variable (operation targetOf) in
/-- The files hold what becomes of each record and the new records. -/
structure Yields (files after : List (File M)) : Prop where
  image : ∀ file ∈ files, ∃ image, afterValue operation targetOf file.value = .ok image
  mem : ∀ value, (∃ file ∈ after, file.value = value) ↔
    (∃ file ∈ files, afterValue operation targetOf file.value = .ok (some value)) ∨
      value ∈ newValues operation
  distinct : (after.map fun file => file.value.address).Nodup
  checked : ∀ file ∈ after, WorldsOwner.isWorld file.value = true → file.check = some file.value

theorem applied_distinct (h : Covers operation recordPath targetOf library.files changes)
    (hpaths : (changes.map Change.path).Nodup) :
    ((applied changes library.files).map fun file => file.value.address).Nodup := by
  rw [applied, List.map_append, List.map_map, List.nodup_append]
  refine ⟨?_, ?_, ?_⟩
  · have hsame : ∀ file ∈ library.files.filter fun file => changes.all (·.address ≠ file.value.address),
        ((fun file => file.value.address) ∘ reload) file = file.value.address := by
      intro file hfile
      obtain ⟨hfile, hkept⟩ := List.mem_filter.mp hfile
      exact h.kept_address hfile (by simpa using hkept)
    rw [List.map_congr_left hsame]
    exact library.distinct.sublist (List.filter_sublist.map _)
  · rw [List.nodup_iff_pairwise_ne, List.pairwise_map, List.pairwise_filterMap]
    rw [List.nodup_iff_pairwise_ne, List.pairwise_map] at hpaths
    refine hpaths.imp_of_mem fun {change other} hchange hother hpath file hfile file' hfile' hsame => ?_
    obtain ⟨value, hvalue, rfl⟩ := Option.map_eq_some_iff.mp hfile
    obtain ⟨value', hvalue', rfl⟩ := Option.map_eq_some_iff.mp hfile'
    have haddress : change.address = other.address := by
      rw [← h.image_address hchange hvalue, ← h.image_address hother hvalue']
      exact hsame
    exact hpath (h.change_unique hchange hother haddress).1
  · intro key hkey key' hkey' hsame
    obtain ⟨file, hfile, rfl⟩ := List.mem_map.mp hkey
    obtain ⟨hfile, hkept⟩ := List.mem_filter.mp hfile
    have hkept : ∀ change ∈ changes, change.address ≠ file.value.address := by simpa using hkept
    obtain ⟨after, hafter, rfl⟩ := List.mem_map.mp hkey'
    obtain ⟨change, hchange, himage⟩ := List.mem_filterMap.mp hafter
    obtain ⟨value, hvalue, rfl⟩ := Option.map_eq_some_iff.mp himage
    apply hkept change hchange
    rw [← h.kept_address hfile hkept, ← h.image_address hchange hvalue]
    exact hsame.symm

theorem applied_yields (h : Covers operation recordPath targetOf library.files changes)
    (hpaths : (changes.map Change.path).Nodup) :
    Yields operation targetOf library.files (applied changes library.files) := by
  refine ⟨fun file hfile => ?_, fun value => ⟨?_, ?_⟩, applied_distinct h hpaths, ?_⟩
  · obtain ⟨image, himage, -⟩ := h.file_cases hfile
    exact ⟨image, himage⟩
  · rintro ⟨after, hafter, rfl⟩
    obtain ⟨file, hfile, hkept, rfl⟩ | ⟨change, hchange, value, hvalue, rfl⟩ := mem_applied.mp hafter
    · obtain ⟨image, himage, ⟨change, hchange, haddress, -⟩ | ⟨-, hstays⟩⟩ := h.file_cases hfile
      · exact absurd haddress (hkept change hchange)
      · exact .inl ⟨file, hfile, hstays.value ▸ himage⟩
    · obtain ⟨file, hfile, -, -, himage⟩ | ⟨created, hcreated, hcreates⟩ := h.change_cases hchange
      · exact .inl ⟨file, hfile, hvalue ▸ himage⟩
      · exact .inr (Option.some.inj (hcreates.image.symm.trans hvalue) ▸ hcreated)
  · rintro (⟨file, hfile, himage⟩ | hnew)
    · obtain ⟨image, himage', ⟨change, hchange, -, hafter⟩ | ⟨hkept, hstays⟩⟩ := h.file_cases hfile
      · obtain rfl := Except.ok.inj (himage.symm.trans himage')
        exact ⟨_, mem_applied.mpr (.inr ⟨change, hchange, value, hafter, rfl⟩), rfl⟩
      · obtain rfl := Except.ok.inj (himage.symm.trans himage')
        exact ⟨_, mem_applied.mpr (.inl ⟨file, hfile, hkept, rfl⟩),
          (Option.some.inj hstays.value).symm⟩
    · obtain ⟨change, hchange, hcreates⟩ := h.created value hnew
      exact ⟨_, mem_applied.mpr (.inr ⟨change, hchange, value, hcreates.image, rfl⟩), rfl⟩
  · intro after hafter hworld
    obtain ⟨file, hfile, hkept, rfl⟩ | ⟨change, hchange, value, hvalue, rfl⟩ := mem_applied.mp hafter
    · obtain ⟨image, himage, ⟨change, hchange, haddress, -⟩ | ⟨-, hstays⟩⟩ := h.file_cases hfile
      · exact absurd haddress (hkept change hchange)
      · exact reload_check hstays hworld
    · rfl

variable {files after : List (File M)} {file : File M} {key target : Key}

/-- A record the operation does not retire stays in its new form. -/
theorem Yields.survives (h : Yields operation targetOf files after) (hfile : file ∈ files)
    (hstays : file.value.retirable → file.value.address ∉ operation.retiring) :
    ∃ value, Becomes operation targetOf file.value value ∧ ∃ kept ∈ after, kept.value = value := by
  obtain ⟨image, himage⟩ := h.image file hfile
  cases image with
  | none =>
    obtain ⟨hretirable, hgone⟩ := afterValue_none.mp himage
    exact absurd hgone (hstays hretirable)
  | some value => exact ⟨value, becomes_of_after himage, (h.mem value).mpr (.inl ⟨file, hfile, himage⟩)⟩

/-- A record after the operation was there before or is new. -/
theorem Yields.origin (h : Yields operation targetOf files after) (hfile : file ∈ after) :
    (∃ before ∈ files, Becomes operation targetOf before.value file.value ∧
      (before.value.retirable → before.value.address ∉ operation.retiring)) ∨
    file.value ∈ newValues operation := by
  obtain ⟨before, hbefore, himage⟩ | hnew := (h.mem file.value).mp ⟨file, hfile, rfl⟩
  · refine .inl ⟨before, hbefore, becomes_of_after himage, fun hretirable hgone => ?_⟩
    rw [afterValue_none.mpr ⟨hretirable, hgone⟩] at himage
    cases himage
  · exact .inr hnew

/-- The identities after an operation: those that stay, retargeted, and the reserved ones. -/
theorem Yields.storedTarget_eq_some (h : Yields operation targetOf library.files after) :
    storedTarget after key = some target ↔
      (key ∉ operation.retiring ∧ ∃ before, storedTarget library.files key = some before ∧
        identityTargetAfter operation before = target) ∨
      ∃ candidate ∈ operation.referencePlan.identities, candidate.address = key ∧
        candidate.targetKey = target := by
  rw [storedTarget_eq_some_of_distinct h.distinct]
  constructor
  · rintro ⟨file, hfile, record, hvalue, rfl, rfl⟩
    obtain ⟨before, hbefore, hbecomes, hkept⟩ | hnew := h.origin hfile
    · rw [hvalue] at hbecomes ⊢
      cases hbefored : before.value with
      | identity old =>
        rw [hbefored] at hbecomes hkept
        cases hbecomes
        refine .inl ⟨hkept ⟨by simp [Value.domain], by simp [Value.domain]⟩, old.targetKey, ?_, rfl⟩
        exact library.storedTarget_eq_some.mpr ⟨before, hbefore, old, hbefored, by rw [hbefored]; rfl, rfl⟩
      | _ =>
        rw [hbefored] at hbecomes
        cases hbecomes
    · rw [hvalue] at hnew ⊢
      rcases List.mem_append.mp hnew with hcode | hreserved
      · simp only [replacements] at hcode
        split at hcode <;> simp at hcode
      · obtain ⟨candidate, hcandidate, hsame⟩ := List.mem_map.mp hreserved
        cases hsame
        exact .inr ⟨candidate, hcandidate, rfl, rfl⟩
  · rintro (⟨hkept, _, hbefore, rfl⟩ | ⟨candidate, hcandidate, rfl, rfl⟩)
    · obtain ⟨file, hfile, record, hvalue, rfl, rfl⟩ := library.storedTarget_eq_some.mp hbefore
      obtain ⟨value, hbecomes, kept, hmem, rfl⟩ := h.survives hfile fun _ => hkept
      have haddress := hbecomes.address_eq
      rw [hvalue] at hbecomes
      cases hsame : kept.value with
      | identity record' =>
        rw [hsame] at hbecomes
        cases hbecomes
        exact ⟨kept, hmem, _, hsame, haddress, rfl⟩
      | _ =>
        rw [hsame] at hbecomes
        cases hbecomes
    · obtain ⟨kept, hmem, hvalue⟩ := (h.mem (.identity (IdentitiesOwner.reservedRecord candidate))).mpr
        (.inr (List.mem_append_right _ (List.mem_map.mpr ⟨candidate, hcandidate, rfl⟩)))
      exact ⟨kept, hmem, _, hvalue, by rw [hvalue]; rfl, rfl⟩

end Yields

section Prepare
variable [DecidableEq M] [EmptyCollection M] {library : Library M}
  {planning : Planning M T} {operation : Operation} {out out' : Appended (Value M) T}
  {request : Request} {intent : Intent (Value M) (Value M) T}

variable (session : Session (Value M) (Value M) T) in
/-- The paths noted so far are those of the changes taken so far, each once. -/
structure Noted (out : Appended (Value M) T) : Prop where
  distinct : (out.changes.map fun change => session.comparisonPath change.path).Nodup
  paths : ∀ change ∈ out.changes, session.comparisonPath change.path ∈ out.paths

omit [EmptyCollection M] in
theorem append_ok {session : Session (Value M) (Value M) T} {owner : OwnerId}
    {changes : List (Change (Value M))} {captures : List (Capture T)}
    (h : append recordCodec session out owner changes captures = .ok out') :
    out'.changes = out.changes ++ changes ∧ (Noted session out → Noted session out') := by
  simp only [append, bind_eq_ok, pure_eq_ok] at h
  obtain ⟨paths, hpaths, _, -, rfl⟩ := h
  have hstep : ∀ seen change seen',
      appendChange (recordCodec (M := M) (T := T)) session owner seen change = .ok seen' →
        seen' = session.comparisonPath change.path :: seen ∧
          session.comparisonPath change.path ∉ seen ∧ True := by
    intro seen change seen' hchange
    simp only [appendChange, bind_eq_ok, ensure_eq_ok, pure_eq_ok] at hchange
    obtain ⟨-, -, -, -, -, hnew, -, -, -, -, -, -, rfl⟩ := hchange
    exact ⟨rfl, hnew, trivial⟩
  obtain ⟨hdistinct, hnew⟩ := foldlM_seen hstep hpaths
  have hcollected := foldlM_collects (fun seen change seen' h => (hstep seen change seen' h).1) hpaths
  refine ⟨rfl, fun hnoted => ⟨?_, ?_⟩⟩
  · rw [List.map_append, List.nodup_append]
    refine ⟨hnoted.distinct, hdistinct, fun path hpath path' hpath' hsame => ?_⟩
    obtain ⟨change, hchange, rfl⟩ := List.mem_map.mp hpath
    obtain ⟨change', hchange', rfl⟩ := List.mem_map.mp hpath'
    exact (hnew change' hchange').1 (hsame ▸ hnoted.paths change hchange)
  · intro change hchange
    rw [hcollected]
    rcases List.mem_append.mp hchange with hold | hadded
    · exact .inr (hnoted.paths change hold)
    · exact .inl (List.mem_map_of_mem hadded)

theorem aggregate_ok {files : List (File M)}
    (h : aggregate planning files (entriesOf files) operation = .ok out) :
    OwnersPrepare operation files planning.session.recordPath out.changes ∧
      (out.changes.map Change.path).Nodup := by
  simp only [aggregate, entriesOf, List.foldlM_cons, List.foldlM_nil, aggregateEntry, prepareOwner,
    bind_eq_ok, map_eq_ok, pure_eq_ok] at h
  obtain ⟨first, ⟨_, ⟨entities, hentities, rfl⟩, hfirst⟩, second,
    ⟨_, ⟨identities, hidentities, rfl⟩, hsecond⟩, third,
    ⟨_, ⟨workflows, hworkflows, rfl⟩, hthird⟩, fourth,
    ⟨_, ⟨worlds, hworlds, rfl⟩, hfourth⟩, fifth, ⟨_, ⟨captures, -, rfl⟩, hfifth⟩, rfl⟩ := h
  obtain ⟨hentitiesIn, hfirst⟩ := append_ok hfirst
  obtain ⟨hidentitiesIn, hsecond⟩ := append_ok hsecond
  obtain ⟨hworkflowsIn, hthird⟩ := append_ok hthird
  obtain ⟨hworldsIn, hfourth⟩ := append_ok hfourth
  obtain ⟨hcapturesIn, hfifth⟩ := append_ok hfifth
  have hnoted : Noted planning.session fifth :=
    hfifth (hfourth (hthird (hsecond (hfirst ⟨List.nodup_nil, by simp⟩))))
  constructor
  · refine ⟨entities, identities, workflows, worlds, hentities, hidentities, hworkflows, hworlds, ?_⟩
    rw [hcapturesIn, hworldsIn, hworkflowsIn, hidentitiesIn, hentitiesIn]
    simp
  · have hmap : (fifth.changes.map Change.path).map planning.session.comparisonPath =
        fifth.changes.map fun change => planning.session.comparisonPath change.path := by simp
    exact List.Nodup.of_map planning.session.comparisonPath (hmap ▸ hnoted.distinct)

/-- What a prepared intent is made of: the planned operation and the files it leads to. -/
structure Planned (planning : Planning M T) (library : Library M) (request : Request)
    (intent : Intent (Value M) (Value M) T) (source : Key) (held : File M) : Prop where
  key : request.sourceKey = some source
  supported : ∃ pair, target (some source) = .ok pair
  scheme : request.kind = .morph → schemeOf source = some "string-entity"
  found : held ∈ library.files ∧ source ∈ held.value.keys
  references : validateReferences (entriesOf library.files) = .ok ()
  operation : planOperation planning (entriesOf library.files) source held request =
    .ok intent.operation
  yields : Yields intent.operation (storedTarget library.files) library.files
    (applied intent.changes library.files)

theorem prepare_ok (h : prepare planning library.files request = .ok (.intent intent)) :
    ∃ source held, Planned planning library request intent source held := by
  simp only [prepare, bind_eq_ok, ensure_eq_ok] at h
  obtain ⟨-, -, pair, hpair, -, hmorph, entries, hentries, ⟨⟩, hreferences, h⟩ := h
  obtain rfl := inventories_ok hentries
  cases hkey : request.sourceKey with
  | none =>
    rw [hkey] at hpair
    cases hpair
  | some source =>
    rw [hkey] at hpair h
    simp only [Option.getD_some] at h
    split at h
    next => simp at h
    next held hheld =>
      obtain ⟨assembled, hassembled, hintent⟩ := map_eq_ok.mp h
      cases hintent
      simp only [assemble, bind_eq_ok, pure_eq_ok] at hassembled
      obtain ⟨operation, hoperation, fingerprint, -, out, hout, rfl⟩ := hassembled
      obtain ⟨howners, hpaths⟩ := aggregate_ok hout
      obtain ⟨hfile, hsource, -⟩ := library.record?_eq_some.mp hheld
      exact ⟨source, held, hkey, ⟨pair, hpair⟩, fun hkind => by
        rw [schemeOf_of_target hpair, hmorph hkind]; rfl, ⟨hfile, hsource⟩, hreferences, hoperation,
        applied_yields (covers_of_owners howners) hpaths⟩

end Prepare

end Space2.ReferenceLifecycle
