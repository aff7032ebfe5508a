import Space2.ReferenceLifecycle.Morph

/-!
# Board subjects across a morph

A board is rewritten before any identity is: the subject's key resolves through the identities that
are reserved in front of the stored ones, and the source becomes its replacement at the end of the
chain. The identities owner retargets every identity of the source instead, wherever it stands in a
chain. Both lead to the same key.
-/

namespace Space2.ReferenceLifecycle
open Base

variable {M T : Type} [DecidableEq M] [EmptyCollection M] {planning : Planning M T}
  {library : Library M} {source code key : Key} {operation : Operation} {after : List (File M)}

theorem reservedTarget_eq_some {target : Key} (h : reservedTarget operation key = some target) :
    ∃ candidate ∈ operation.referencePlan.identities, candidate.address = key ∧
      candidate.targetKey = target := by
  obtain ⟨candidate, hlast, rfl⟩ := Option.map_eq_some_iff.mp h
  obtain ⟨hcandidate, hkey⟩ := List.mem_filter.mp (List.mem_of_getLast? hlast)
  exact ⟨candidate, hcandidate, by simpa using hkey, rfl⟩

theorem reservedTarget_eq_none (h : reservedTarget operation key = none) :
    ∀ candidate ∈ operation.referencePlan.identities, candidate.address ≠ key := by
  have hnone := List.getLast?_eq_none_iff.mp (Option.map_eq_none_iff.mp h)
  simpa using hnone

section Resolution
variable (hkeys : MorphKeys source code) (h : Morphs planning library source code operation)
  (hyields : Yields operation (storedTarget library.files) library.files after)
include hkeys h hyields

/-- An identity names after the morph what the plan says, with the source renamed. -/
theorem Morphs.storedTarget_planned (hkey : isIdentity key = true) :
    storedTarget after key =
      (plannedTargetOf operation (storedTarget library.files) key).map (renamed source code) := by
  have hsource := hkeys.identity_ne_source hkey
  cases hreserved : reservedTarget operation key with
  | some target =>
    obtain ⟨candidate, hcandidate, haddress, rfl⟩ := reservedTarget_eq_some hreserved
    have hafter : storedTarget after key = some candidate.targetKey :=
      hyields.storedTarget_eq_some.mpr (.inr ⟨candidate, hcandidate, haddress, rfl⟩)
    obtain ⟨-, raw, -, htarget⟩ := h.wraps.drawn candidate hcandidate
    have hsame : renamed source code candidate.targetKey = candidate.targetKey := by
      rw [htarget]
      exact if_neg (hkeys.renamed_ne_source raw)
    simp [plannedTargetOf, hreserved, hafter, hsame]
  | none =>
    have hnone := reservedTarget_eq_none hreserved
    apply Option.ext
    intro target
    have hplanned : plannedTargetOf operation (storedTarget library.files) key =
        storedTarget library.files key := by simp [plannedTargetOf, hreserved]
    rw [hyields.storedTarget_eq_some, h.retiring, hplanned, Option.map_eq_some_iff]
    constructor
    · rintro (⟨-, before, hbefore, rfl⟩ | ⟨candidate, hcandidate, haddress, -⟩)
      · exact ⟨before, hbefore, (h.identityTargetAfter_eq before).symm⟩
      · exact absurd haddress (hnone candidate hcandidate)
    · rintro ⟨before, hbefore, rfl⟩
      exact .inl ⟨by simpa using hsource, before, hbefore, h.identityTargetAfter_eq before⟩

theorem Morphs.next_planned (key : Key) :
    (identityAliases (storedTarget after)).next key =
      ((identityAliases (plannedTargetOf operation (storedTarget library.files))).next key).map
        (renamed source code) := by
  by_cases hkey : isIdentity key = true
  · simp only [identityAliases, if_pos hkey, h.storedTarget_planned hkeys hyields hkey]
    cases plannedTargetOf operation (storedTarget library.files) key with
    | none => rfl
    | some target =>
      by_cases hempty : target = ""
      · have hrenamed : renamed source code target = "" := hkeys.renamed_eq_empty.mpr hempty
        rw [hempty] at hrenamed
        simp [Option.filter, hempty, hrenamed]
      · have hrenamed : renamed source code target ≠ "" :=
          fun heq => hempty (hkeys.renamed_eq_empty.mp heq)
        simp [Option.filter, hempty, hrenamed]
  · rw [Bool.not_eq_true] at hkey
    rw [next_of_not_identity hkey, next_of_not_identity hkey]
    rfl

/-- The planned target of a key is what its new name leads to after the morph. -/
theorem Morphs.plannedTarget_eq (key : Key) :
    Board.plannedTarget operation (storedTarget library.files) key =
      resolveWith "board subject " (storedTarget after) (renamed source code key) := by
  have hfollow : (identityAliases (storedTarget after)).follow maxDepth (renamed source code key) =
      ((identityAliases (plannedTargetOf operation (storedTarget library.files))).follow maxDepth
        key).map (renamed source code) :=
    Aliases.followFrom_exchange (fun _ => rfl) (h.next_planned hkeys hyields)
      (fun _ hk => if_neg (hkeys.identity_ne_source hk)) fun _ hk => hkeys.renamed_not_identity hk
  rw [Board.plannedTarget, resolveWith, resolveWith, hfollow]
  cases (identityAliases (plannedTargetOf operation (storedTarget library.files))).follow maxDepth
      key with
  | error failure => rfl
  | ok current =>
    by_cases hcurrent : current = source
    · simp [Except.mapError, Except.map, bind, Except.bind, pure, Except.pure, h.kind, h.sourceKey,
        h.targetKey, renamed, hcurrent]
    · simp [Except.mapError, Except.map, bind, Except.bind, pure, Except.pure, h.sourceKey, renamed,
        hcurrent]

omit hyields [DecidableEq M] [EmptyCollection M] in
/-- A place that a morph wraps does not keep the source. -/
theorem Morphs.rewrite_ne_source {file held : File M} {reference : Reference}
    (hfile : file ∈ library.files) (hheld : held ∈ library.files ∧ source ∈ held.value.keys)
    (hreference : reference ∈ file.value.references) (hkind : reference.kind.eligible = true) :
    rewrite operation reference.target ≠ source := by
  by_cases hraw : reference.target ∈ rawKeys (entriesOf library.files)
  · exact hkeys.identity_ne_source (h.wraps.rewrite_identity hraw)
  · rw [h.wraps.rewrite_other hraw]
    intro heq
    exact hraw (raw_of_reference hfile hheld.1 hreference hkind (heq ▸ hheld.2)
      (heq ▸ hkeys.source_not_identity))

end Resolution

section Items
variable {targetOf : Key → Option Key} {state : Board.State M} {rewritten : Board.State M}

omit [DecidableEq M] [EmptyCollection M] in
/-- An item that stays shows a subject of before, and its type follows the planned target. -/
theorem item_origin (h : Board.rewriteState operation targetOf state = .ok rewritten)
    {out : Board.Item M} (hout : out ∈ rewritten.items) (hsubject : out.subjectKey = some key) :
    ∃ item ∈ state.items, ∃ before, item.subjectKey = some before ∧ key = rewrite operation before ∧
      ∃ target, Board.plannedTarget operation targetOf key = .ok target ∧
        out.type = Board.typeFor target item.type := by
  simp only [Board.rewriteState, bind_eq_ok, pure_eq_ok] at h
  obtain ⟨items, hitems, rfl⟩ := h
  obtain ⟨item, hitem, hrewrite⟩ := (forall₂_members (mapM_eq_ok.mp hitems)).2 out hout
  have hitem := (List.mem_filter.mp hitem).1
  rw [Board.rewriteSubject] at hrewrite
  cases hbefore : item.subjectKey with
  | none =>
    simp only [hbefore, pure_eq_ok] at hrewrite
    rw [← hrewrite, hbefore] at hsubject
    cases hsubject
  | some before =>
    simp only [hbefore, bind_eq_ok, pure_eq_ok] at hrewrite
    obtain ⟨target, htarget, rfl⟩ := hrewrite
    cases hsubject
    exact ⟨item, hitem, before, hbefore, rfl, target, htarget, rfl⟩

omit [DecidableEq M] [EmptyCollection M] in
theorem item_planned (hkind : operation.kind = .morph)
    (h : Board.rewriteState operation targetOf state = .ok rewritten) {item : Board.Item M}
    (hitem : item ∈ state.items) (hsubject : item.subjectKey = some key) :
    ∃ target, Board.plannedTarget operation targetOf (rewrite operation key) = .ok target := by
  simp only [Board.rewriteState, bind_eq_ok, pure_eq_ok] at h
  obtain ⟨items, hitems, rfl⟩ := h
  have hstays : item ∈ state.items.filter fun item => !Board.retired operation item :=
    List.mem_filter.mpr ⟨hitem, by simp [Board.retired, hkind]⟩
  obtain ⟨out, -, hrewrite⟩ := (forall₂_members (mapM_eq_ok.mp hitems)).1 item hstays
  simp only [Board.rewriteSubject, hsubject, bind_eq_ok] at hrewrite
  obtain ⟨target, htarget, -⟩ := hrewrite
  exact ⟨target, htarget⟩

theorem typeFor_typeFor (target : Key) (type : String) :
    Board.typeFor target (Board.typeFor target type) = Board.typeFor target type := by
  simp only [Board.typeFor]
  split <;> simp_all

omit [DecidableEq M] [EmptyCollection M] in
theorem mem_boardReferences {world : World M} {slot : BoardSlot} {board : Board.State M}
    {item : Board.Item M} (hboard : (slot, board) ∈ world.boards) (hitem : item ∈ board.items)
    (hsubject : item.subjectKey = some key) :
    ⟨(Value.world world).address, slot.field ++ [.name "items", .name item.id], key,
      .boardSubject⟩ ∈ (Value.world world).references := by
  refine List.mem_flatMap.mpr ⟨(slot, board), hboard, List.mem_filterMap.mpr ⟨item, hitem, ?_⟩⟩
  rw [subjectReference, hsubject]
  rfl

omit [DecidableEq M] [EmptyCollection M] in
theorem boards_of_world {world rewritten : World M}
    (h : WorldsOwner.rewriteWorld operation targetOf world = .ok rewritten) :
    List.Forall₂ (fun before after => before.1 = after.1 ∧
      Board.rewriteState operation targetOf before.2 = .ok after.2) world.boards rewritten.boards := by
  simp only [WorldsOwner.rewriteWorld, bind_eq_ok, pure_eq_ok] at h
  obtain ⟨boards, hboards, rfl⟩ := h
  refine (mapM_eq_ok.mp hboards).imp fun before after hboard => ?_
  obtain ⟨state, hstate, rfl⟩ := map_eq_ok.mp hboard
  exact ⟨rfl, hstate⟩

end Items

section Boards

/-- What a board plans for its subjects is what they resolve to when the morph is done. -/
theorem planned_target_resolves (library : Library M) (planning : Planning M T) {request : Request}
    {intent : Intent (Value M) (Value M) T} (hkind : request.kind = .morph)
    (h : prepare planning library.files request = .ok (.intent intent)) :
    (∀ key, some key ≠ request.sourceKey →
      Board.plannedTarget intent.operation (storedTarget library.files) key =
        resolveWith "board subject " (storedTarget (applied intent.changes library.files)) key) ∧
    (∀ file ∈ library.files, ∀ world, file.value = .world world →
      ∀ board ∈ world.boards, ∀ item ∈ board.2.items, ∀ key, item.subjectKey = some key →
        ∃ target, Board.plannedTarget intent.operation (storedTarget library.files)
            (rewrite intent.operation key) = .ok target ∧
          resolveWith "board subject " (storedTarget (applied intent.changes library.files))
            (rewrite intent.operation key) = .ok target) ∧
    ∀ file ∈ applied intent.changes library.files, ∀ world, file.value = .world world →
      ∀ board ∈ world.boards, ∀ item ∈ board.2.items, ∀ key, item.subjectKey = some key →
        ∃ target, resolveWith "board subject "
            (storedTarget (applied intent.changes library.files)) key = .ok target ∧
          item.type = Board.typeFor target item.type := by
  obtain ⟨source, held, hplanned⟩ := prepare_ok h
  have hmorphs := morphs_of_plan planning library hkind hplanned.operation
  have hyields := hplanned.yields
  have hkeys : MorphKeys source (address "code-entity" (planning.uuid 0)) :=
    ⟨hplanned.scheme hkind, schemeOf_address (by decide) (by decide) _⟩
  have hsame : ∀ key, key ≠ source →
      Board.plannedTarget intent.operation (storedTarget library.files) key =
        resolveWith "board subject " (storedTarget (applied intent.changes library.files)) key := by
    intro key hkey
    rw [hmorphs.plannedTarget_eq hkeys hyields, renamed, if_neg hkey]
  have hsubjects : ∀ file ∈ library.files, ∀ world, file.value = .world world →
      ∀ board ∈ world.boards, ∀ item ∈ board.2.items, ∀ key, item.subjectKey = some key →
        rewrite intent.operation key ≠ source := by
    intro file hfile world hvalue board hboard item hitem key hsubject
    exact hmorphs.rewrite_ne_source hkeys hfile hplanned.found
      (hvalue ▸ mem_boardReferences hboard hitem hsubject) rfl
  refine ⟨?_, ?_, ?_⟩
  · intro key hkey
    exact hsame key fun heq => hkey (heq ▸ hplanned.key.symm)
  · intro file hfile world hvalue board hboard item hitem key hsubject
    obtain ⟨image, himage⟩ := hyields.image file hfile
    rw [hvalue] at himage
    obtain ⟨value, hvalue', -⟩ := map_eq_ok.mp himage
    obtain ⟨after, hafter, -⟩ := map_eq_ok.mp hvalue'
    obtain ⟨out, -, -, hstate⟩ := (forall₂_members (boards_of_world hafter)).1 board hboard
    obtain ⟨target, htarget⟩ := item_planned hmorphs.kind hstate hitem hsubject
    refine ⟨target, htarget, ?_⟩
    rw [← hsame _ (hsubjects file hfile world hvalue board hboard item hitem key hsubject), htarget]
  · intro file hfile world hvalue board hboard item hitem key hsubject
    obtain ⟨before, hbefore, hbecomes, -⟩ | hnew := hyields.origin hfile
    · rw [hvalue] at hbecomes
      cases hold : before.value with
      | world old =>
        rw [hold] at hbecomes
        cases hbecomes with
        | world hworld =>
          obtain ⟨state, hstate, -, hrewritten⟩ :=
            (forall₂_members (boards_of_world hworld)).2 board hboard
          obtain ⟨item', hitem', key', hkey', rfl, target, htarget, htype⟩ :=
            item_origin hrewritten hitem hsubject
          refine ⟨target, ?_, by rw [htype, typeFor_typeFor]⟩
          rw [← hsame _ (hsubjects before hbefore old hold state hstate item' hitem' key' hkey'),
            htarget]
      | _ =>
        rw [hold] at hbecomes
        cases hbecomes
    · rw [hvalue] at hnew
      rcases List.mem_append.mp hnew with hcode | hreserved
      · simp only [replacements] at hcode
        split at hcode <;> simp at hcode
      · obtain ⟨candidate, -, hcandidate⟩ := List.mem_map.mp hreserved
        cases hcandidate

/-! A board shows a string, the same string through two identities, and some code. -/

def wallValues : List (Value (List Nat)) :=
  [.string ⟨"s", "text", 0, 0⟩, .code ⟨⟨"c", "fnl", "", .number 0⟩, "c", 0, 0⟩,
    .identity ⟨"i", "string-entity:s", 0, 0, []⟩, .identity ⟨"j", "identity:i", 0, 0, []⟩,
    .world ⟨"w", [(.state, ⟨[⟨"p", "string-entity", some "string-entity:s", []⟩,
      ⟨"q", "string-entity", some "identity:j", []⟩, ⟨"r", "code-entity", some "code-entity:c", []⟩],
      none, []⟩)], none, none, none, none, none, none, none, none, []⟩]

def wall : Library (List Nat) where
  files := wallValues.map fun value => ⟨value, value.address, some value⟩
  whole := by decide
  distinct := by decide
  ids := by decide
  definitions := by
    intro file hfile definition hvalue
    simp only [wallValues, List.map_cons, List.map_nil, List.mem_cons, List.not_mem_nil,
      or_false] at hfile
    rcases hfile with rfl | rfl | rfl | rfl | rfl <;> cases hvalue

def wallMorphed : Option (Intent (Value (List Nat)) (Value (List Nat)) Unit) :=
  prepared? (prepare .plain wall.files
    ⟨.morph, some "string-entity:s", some ⟨"s", "fnl", "text", .number 0⟩⟩)

theorem planned_target_resolves_wall : ∃ intent, wallMorphed = some intent ∧
    Board.plannedTarget intent.operation (storedTarget wall.files) "identity:j" =
      resolveWith "board subject " (storedTarget (applied intent.changes wall.files))
        "identity:j" := by
  have hprepared : wallMorphed.isSome = true := by decide +kernel
  obtain ⟨intent, hintent⟩ := Option.isSome_iff_exists.mp hprepared
  have hok := prepared?_eq_some.mp hintent
  exact ⟨intent, hintent, (planned_target_resolves wall .plain rfl hok).1 "identity:j" (by decide)⟩

end Boards

end Space2.ReferenceLifecycle
