import Space2.GraphExtensions.Registry

/-!
# The handles of one installation

Whatever an installer hands over is kept while the installation goes on, and when
it fails each handle is unregistered once. A returned bare handle is unregistered
on the spot, so that it must not be among the recorded ones.
-/
namespace Space2.GraphExtensions

open Space2.Base Op

variable {H : Type} [DecidableEq H]

/-! ## Lists without repetitions -/

theorem mem_insertNew {l : List H} {handle other : H} :
    other ∈ insertNew l handle ↔ other ∈ l ∨ other = handle := by
  unfold insertNew
  split_ifs with hmem
  · constructor
    · exact Or.inl
    · rintro (h | rfl)
      · exact h
      · exact hmem
  · simp

theorem nodup_insertNew {l : List H} {handle : H} (h : l.Nodup) : (insertNew l handle).Nodup := by
  unfold insertNew
  split_ifs with hmem
  · exact h
  · exact List.nodup_append.mpr ⟨h, List.nodup_singleton handle, by
      rintro a ha b hb rfl
      exact hmem (List.mem_singleton.mp hb ▸ ha)⟩

theorem mem_foldl_insertNew {handles l : List H} {handle : H} :
    handle ∈ handles.foldl insertNew l ↔ handle ∈ l ∨ handle ∈ handles := by
  induction handles generalizing l with
  | nil => simp
  | cons first handles ih =>
    rw [List.foldl_cons, ih, mem_insertNew, List.mem_cons, or_assoc]

theorem nodup_foldl_insertNew {handles l : List H} (h : l.Nodup) :
    (handles.foldl insertNew l).Nodup := by
  induction handles generalizing l with
  | nil => exact h
  | cons first handles ih => exact ih (nodup_insertNew h)

theorem foldl_insertNew_of_subset {handles l : List H} (h : ∀ handle ∈ handles, handle ∈ l) :
    handles.foldl insertNew l = l := by
  induction handles generalizing l with
  | nil => rfl
  | cons first handles ih =>
    rw [List.foldl_cons, insertNew, if_pos (h first List.mem_cons_self)]
    exact ih fun handle hhandle => h handle (List.mem_cons_of_mem first hhandle)

def distinct (handles : List H) : List H := handles.foldl insertNew []

theorem mem_distinct {handles : List H} {handle : H} : handle ∈ distinct handles ↔ handle ∈ handles := by
  rw [distinct, mem_foldl_insertNew, List.mem_nil_iff, false_or]

theorem nodup_distinct (handles : List H) : (distinct handles).Nodup :=
  nodup_foldl_insertNew List.nodup_nil

theorem distinct_append (first rest : List H) :
    distinct (first ++ rest) = rest.foldl insertNew (distinct first) := List.foldl_append

/-! ## What may be handed over -/

def callHandles (call : Option (Item H) × Option (Item H)) : List H :=
  (selected call.1 call.2).toList.flatMap Item.handles

def Attempt.recordedHandles (attempt : Attempt H) : List H :=
  attempt.recorded.flatMap callHandles

def Attempt.returnedHandles (attempt : Attempt H) : List H :=
  match attempt.outcome with
  | .ok returned => returned.handles
  | .error _ => []

def Attempt.hands (attempt : Attempt H) : List H := attempt.recordedHandles ++ attempt.returnedHandles

def Installer.hands (attempts : Installer H) : List H := attempts.loaders.hands ++ attempts.morphs.hands

/-- A bare handle that comes back is not one of those before, and brings no new ones along. -/
def Returned.BareIsNew (before : List H) : Returned H → Prop
  | .table (some bare) entries =>
    bare ∉ before ∧ ∀ handle ∈ entryHandles entries, handle = bare ∨ handle ∈ before
  | _ => True

def Attempt.BareIsNew (before : List H) (attempt : Attempt H) : Prop :=
  ∀ returned, attempt.outcome = .ok returned →
    returned.BareIsNew (before ++ attempt.recordedHandles)

def Installer.BareIsNew (attempts : Installer H) : Prop :=
  attempts.loaders.BareIsNew [] ∧ attempts.morphs.BareIsNew attempts.loaders.hands

/-! ## The course of an installation -/

/-- All of `before` was handed over, and is kept. -/
structure Install.Collected (before : List H) (i : Install H) : Prop where
  handles : i.handles = distinct before
  handed : i.handed = distinct before
  unregistered : i.unregistered = []

/-- `later` was handed over too and is to be looked at. -/
structure Install.Awaiting (before later : List H) (i : Install H) : Prop where
  handles : i.handles = distinct before
  handed : i.handed = distinct (before ++ later)
  unregistered : i.unregistered = []

/-- Each handle that was handed over is kept or was unregistered. -/
structure Install.Settled (all : List H) (i : Install H) : Prop where
  once : (i.handles ++ i.unregistered).Perm i.handed
  nodup : i.handed.Nodup
  handed : ∀ handle ∈ i.handed, handle ∈ all

theorem Install.Collected.settled {before all : List H} {i : Install H} (h : i.Collected before)
    (hall : ∀ handle ∈ before, handle ∈ all) : i.Settled all where
  once := by rw [h.unregistered, List.append_nil, h.handles, h.handed]
  nodup := by
    rw [h.handed]
    exact nodup_distinct before
  handed := by
    intro handle hhandle
    rw [h.handed, mem_distinct] at hhandle
    exact hall handle hhandle

theorem ensures_recordHandles {E : Install H → Prop} (before later : List H) :
    Ensures (Install.Awaiting before later) (forEach later recordHandle)
      (fun _ => Install.Collected (before ++ later)) E := by
  let Visited (visited : List H) (i : Install H) : Prop :=
    i.handles = visited.foldl insertNew (distinct before) ∧
      i.handed = distinct (before ++ later) ∧ i.unregistered = []
  have hloop : Ensures (Visited []) (forEach later recordHandle) (fun _ => Visited later) E := by
    apply ensures_forEach
    intro visited handle rest _
    apply ensures_modify
    rintro i ⟨hhandles, hrest⟩
    refine ⟨?_, hrest⟩
    rw [List.foldl_append, List.foldl_cons, List.foldl_nil]
    exact congrArg (fun handles => insertNew handles handle) hhandles
  refine hloop.weaken ?_ ?_ (fun _ hE => hE)
  · intro i hi
    exact ⟨hi.handles, hi.handed, hi.unregistered⟩
  · rintro _ i ⟨hhandles, hhanded, hunregistered⟩
    exact ⟨hhandles.trans (distinct_append before later).symm, hhanded, hunregistered⟩

theorem ensures_appendEntries (before : List H) (entries : List (Key × Item H)) (context : String) :
    Ensures (Install.Awaiting before (entryHandles entries)) (appendHandles (.table none entries) context)
      (fun _ => Install.Collected (before ++ entryHandles entries))
      (Install.Collected (before ++ entryHandles entries)) := by
  apply ensures_bind (ensures_recordHandles before (entryHandles entries))
  intro _
  cases entryError context entries with
  | some message => exact ensures_raise fun i hi => hi
  | none =>
    apply ensures_require_bind _ (fun _ i hi => hi)
    intro _
    apply ensures_require_bind _ (fun _ i hi => hi)
    intro _
    apply ensures_require_bind _ (fun _ i hi => hi)
    intro _
    exact ensures_require (fun i hi _ => hi) (fun i hi _ => hi)

theorem ensures_appendHandles {before all : List H} (returned : Returned H) (context : String)
    (hbare : returned.BareIsNew before) (hall : ∀ handle ∈ before ++ returned.handles, handle ∈ all) :
    Ensures (Install.Awaiting before returned.handles) (appendHandles returned context)
      (fun _ => Install.Collected (before ++ returned.handles)) (Install.Settled all) := by
  cases returned with
  | scalar =>
    apply ensures_raise
    intro i hi
    have hcollected : i.Collected before := by
      refine ⟨hi.handles, ?_, hi.unregistered⟩
      rw [hi.handed, Returned.handles, List.append_nil]
    exact hcollected.settled fun handle hhandle => hall handle (List.mem_append_left _ hhandle)
  | table bare entries =>
    cases bare with
    | none =>
      have hentries := ensures_appendEntries before entries context
      exact hentries.weaken (fun _ hi => hi) (fun _ _ hi => hi) fun i hi => hi.settled hall
    | some bare =>
      obtain ⟨hnew, hbrought⟩ := hbare
      apply ensures_modify_bind (Install.Settled all)
      · intro i hi
        have hhanded : i.handed = distinct before ++ [bare] := by
          rw [hi.handed, Returned.handles, distinct_append, Option.toList_some,
            List.singleton_append, List.foldl_cons, insertNew,
            if_neg (fun hmem => hnew (mem_distinct.mp hmem))]
          apply foldl_insertNew_of_subset
          intro handle hhandle
          rcases hbrought handle hhandle with rfl | hbefore
          · simp
          · exact List.mem_append_left _ (mem_distinct.mpr hbefore)
        refine ⟨?_, ?_, ?_⟩
        · change (i.handles ++ (i.unregistered ++ [bare])).Perm i.handed
          rw [hhanded, hi.handles, hi.unregistered, List.nil_append]
        · change i.handed.Nodup
          rw [hi.handed]
          exact nodup_distinct _
        · intro handle hhandle
          change handle ∈ i.handed at hhandle
          rw [hi.handed, mem_distinct] at hhandle
          exact hall handle hhandle
      · exact ensures_raise fun i hi => hi

theorem ensures_hand {E : Install H → Prop} (before handles : List H) :
    Ensures (Install.Collected before) (hand handles) (fun _ => Install.Awaiting before handles) E := by
  apply ensures_modify
  intro i hi
  refine ⟨hi.handles, ?_, hi.unregistered⟩
  change handles.foldl insertNew i.handed = distinct (before ++ handles)
  rw [hi.handed, distinct_append]

theorem ensures_record (before : List H) (call : Option (Item H) × Option (Item H))
    {E : Install H → Prop} :
    Ensures (Install.Collected before) (record call)
      (fun _ => Install.Collected (before ++ callHandles call)) E := by
  have hentries : entryHandles ((selected call.1 call.2).toList.map fun item => (Key.number 1, item)) =
      callHandles call := by
    rw [entryHandles, List.flatMap_map]
    rfl
  have hcall := ensures_appendEntries before
    ((selected call.1 call.2).toList.map fun item => (Key.number 1, item)) "record-handle"
  rw [hentries] at hcall
  apply ensures_bind (ensures_hand before (callHandles call))
  intro _
  apply ensures_bind (ensures_caught_kept hcall)
  intro _
  exact ensures_pure fun i hi => hi

theorem ensures_run (before : List H) (attempt : Attempt H) {E : Install H → Prop}
    (hE : ∀ i : Install H, i.Collected (before ++ attempt.recordedHandles) → E i) :
    Ensures (Install.Collected before) attempt.run
      (fun returned i => i.Awaiting (before ++ attempt.recordedHandles) returned.handles ∧
        attempt.outcome = .ok returned) E := by
  have hloop : Ensures (Install.Collected (before ++ ([] : List _).flatMap callHandles))
      (forEach attempt.recorded record)
      (fun _ => Install.Collected (before ++ attempt.recorded.flatMap callHandles)) E := by
    apply ensures_forEach (I := fun visited => Install.Collected (before ++ visited.flatMap callHandles))
    intro visited call rest _
    have hcall := ensures_record (before ++ visited.flatMap callHandles) call (E := E)
    rw [List.flatMap_append, List.flatMap_singleton, ← List.append_assoc]
    exact hcall
  rw [List.flatMap_nil, List.append_nil] at hloop
  apply ensures_bind hloop
  intro _
  apply ensures_ofExcept_bind
  · intro returned hreturned
    apply ensures_bind (ensures_hand _ returned.handles)
    intro _
    exact ensures_pure fun i hi => ⟨hi, hreturned⟩
  · intro message _ i hi
    exact hE i hi

theorem Attempt.hands_eq {attempt : Attempt H} {returned : Returned H}
    (h : attempt.outcome = .ok returned) :
    attempt.hands = attempt.recordedHandles ++ returned.handles := by
  rw [hands, returnedHandles, h]

/-- One of the two installers of an extension. -/
theorem ensures_appendFrom {before all : List H} (attempt : Attempt H) (context : String)
    (hbare : attempt.BareIsNew before) (hall : ∀ handle ∈ before ++ attempt.hands, handle ∈ all) :
    Ensures (Install.Collected before) (appendFrom attempt context)
      (fun _ => Install.Collected (before ++ attempt.hands)) (Install.Settled all) := by
  apply ensures_bind
  · apply ensures_run before attempt
    intro i hi
    apply hi.settled
    intro handle hhandle
    apply hall
    rw [Attempt.hands, ← List.append_assoc]
    exact List.mem_append_left _ hhandle
  · intro returned
    apply ensures_given
    intro hreturned
    rw [Attempt.hands_eq hreturned, ← List.append_assoc] at hall ⊢
    exact ensures_appendHandles returned context (hbare returned hreturned) hall

/-- An installation that succeeds keeps all that was handed over. -/
theorem ensures_installBody (descriptor : Descriptor) (runtime : Runtime) (attempts : Installer H)
    (hbare : attempts.BareIsNew) :
    Ensures (Install.Collected []) (installBody descriptor runtime attempts)
      (fun _ i => i.Settled attempts.hands ∧ i.handles = i.handed ∧ i.unregistered = [])
      (Install.Settled attempts.hands) := by
  have hloaders : ∀ handle ∈ attempts.loaders.hands, handle ∈ attempts.hands :=
    fun handle hhandle => List.mem_append_left _ hhandle
  have hkept : ∀ before : List H, (∀ handle ∈ before, handle ∈ attempts.hands) → ∀ i : Install H,
      i.Collected before → i.Settled attempts.hands ∧ i.handles = i.handed ∧ i.unregistered = [] :=
    fun before hbefore i hi =>
      ⟨hi.settled hbefore, hi.handles.trans hi.handed.symm, hi.unregistered⟩
  apply ensures_bind (ensures_appendFrom attempts.loaders "install-loaders" hbare.1 hloaders)
  intro _
  rw [List.nil_append]
  split_ifs with hmorphs
  · apply ensures_require_bind
    · intro _
      have hall : ∀ handle ∈ attempts.loaders.hands ++ attempts.morphs.hands,
          handle ∈ attempts.hands := fun handle hhandle => hhandle
      have hmorphs := ensures_appendFrom attempts.morphs "install-morphs" hbare.2 hall
      exact hmorphs.weaken (fun _ hi => hi) (fun _ i hi => hkept _ (fun _ h => h) i hi)
        (fun _ hE => hE)
    · intro _ i hi
      exact hi.settled hloaders
  · exact ensures_pure fun i hi => hkept _ hloaders i hi

end Space2.GraphExtensions
