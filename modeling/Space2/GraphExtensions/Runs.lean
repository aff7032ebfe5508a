import Space2.Base.Runs
import Space2.GraphExtensions.Accounting

/-!
# Installation is all or nothing

Whether a call answers or raises, every extension is in every runtime after it, and
the handles of nothing else are left.
-/
namespace Space2.GraphExtensions

open Space2.Base Op

variable {H : Type} [DecidableEq H] {installer : Nat → Installer H} {base d : Registry H}
  {places : List (Runtime × String)}

/-! ## The registry between calls -/

variable (installer) in
/-- Every extension is installed in every runtime, and all handles are accounted for. -/
structure AllOrNothing (d : Registry H) : Prop where
  accounted : Accounted installer d
  everywhere : ∀ runtime id, (runtime, id) ∈ d.places ↔ runtime ∈ d.runtimes ∧ id ∈ d.ids
  once : d.places.Nodup
  runtimes : d.runtimes.Nodup
  runtimeStates : d.runtimeStates = d.runtimes
  named : ∀ stored ∈ d.extensions, stored.descriptor.id = stored.id

theorem AllOrNothing.at (h : AllOrNothing installer d) : At installer d d.places d :=
  ⟨h.accounted, rfl, h.once, rfl, rfl, rfl⟩

theorem At.allOrNothing (h : At installer base base.places d) (hbase : AllOrNothing installer base) :
    AllOrNothing installer d := by
  have hplaces : d.places = base.places := h.placed
  have hids : d.ids = base.ids := congrArg (List.map Stored.id) h.extensions
  refine ⟨h.accounted, ?_, hplaces ▸ hbase.once, h.runtimes ▸ hbase.runtimes, ?_, ?_⟩
  · rw [hplaces, hids, h.runtimes]
    exact hbase.everywhere
  · rw [h.runtimeStates, h.runtimes]
    exact hbase.runtimeStates
  · rw [h.extensions]
    exact hbase.named

/-- Taking back what a loop has installed leaves what there was before. -/
theorem filter_taken_back {β : Type} {place : β → Runtime × String} {done : List β}
    (h : ∀ b, place b ∉ places) :
    (places ++ done.map place).filter (fun other => decide (other ∉ done.reverse.map place)) =
      places := by
  have hold : places.filter (fun other => decide (other ∉ done.reverse.map place)) = places := by
    apply List.filter_eq_self.mpr
    intro other hother
    apply decide_eq_true
    intro hmem
    obtain ⟨b, _, rfl⟩ := List.mem_map.mp hmem
    exact h b hother
  have hnew : (done.map place).filter (fun other => decide (other ∉ done.reverse.map place)) = [] := by
    apply List.filter_eq_nil_iff.mpr
    intro other hother
    simpa using hother
  rw [List.filter_append, hold, hnew, List.append_nil]

/-! ## Extensions -/

theorem ensures_validateDescriptor {P : Registry H → Prop} (descriptor : Descriptor) :
    Ensures P (validateDescriptor descriptor) (fun _ => P) P := by
  apply ensures_require_bind _ (fun _ _ h => h)
  intro _
  apply ensures_require_bind _ (fun _ _ h => h)
  intro _
  apply ensures_require_bind _ (fun _ _ h => h)
  intro _
  cases descriptor.refreshSchemes with
  | none => exact ensures_pure fun _ h => h
  | some schemes => exact ensures_require (fun _ h _ => h) fun _ h _ => h

theorem ensures_installDescriptorInto (hnew : NewHandles installer) (descriptor : Descriptor)
    (runtime : Runtime) :
    Ensures (At installer base places) (installDescriptorInto installer descriptor runtime)
      (fun _ => At installer base (places ++ [(runtime, descriptor.id)]))
      (At installer base places) := by
  apply ensures_get_kept
  intro d hd
  apply ensures_require_bind
  · intro _
    exact ensures_installExtensionIntoState hnew descriptor runtime
  · intro _ d' hd'
    exact hd'

theorem ensures_registerExtension (hnew : NewHandles installer) (descriptor : Descriptor) :
    Ensures (AllOrNothing installer) (registerExtension installer descriptor)
      (fun _ => AllOrNothing installer) (AllOrNothing installer) := by
  apply ensures_bind (ensures_validateDescriptor descriptor)
  intro _
  apply ensures_get
  intro d hd
  apply ensures_require_bind _ (fun _ d' hd' => hd' ▸ hd)
  intro hnone
  have hfresh : descriptor.id ∉ d.ids := by
    intro hmem
    obtain ⟨stored, hstored, hid⟩ := List.mem_map.mp hmem
    unfold Registry.extension? at hnone
    rw [Option.isNone_iff_eq_none, List.find?_eq_none] at hnone
    exact hnone stored hstored (decide_eq_true hid)
  have hplace : ∀ runtime : Runtime, (runtime, descriptor.id) ∉ d.places :=
    fun runtime hmem => hfresh ((hd.everywhere _ _).mp hmem).2
  have hloop : Ensures (At installer d (d.places ++ ([] : List Runtime).map (·, descriptor.id)))
      (doEach (installDescriptorInto installer descriptor) d.runtimes)
      (fun answer s => At installer d (d.places ++ answer.2.map (·, descriptor.id)) s ∧
        answer.2 <+: d.runtimes ∧ (answer.1 = none → answer.2 = d.runtimes))
      (AllOrNothing installer) := by
    apply ensures_doEach (I := fun done => At installer d (d.places ++ done.map (·, descriptor.id)))
    intro done runtime rest _
    rw [List.map_append, ← List.append_assoc]
    exact ensures_installDescriptorInto hnew descriptor runtime
  rw [List.map_nil, List.append_nil] at hloop
  refine ensures_bind (hloop.weaken ?_ (fun _ _ h => h) fun _ h => h) ?_
  · rintro _ rfl
    exact hd.at
  rintro ⟨failure, installedStates⟩
  cases failure with
  | none =>
    apply ensures_modify
    rintro s ⟨hs, -, hall⟩
    obtain rfl : installedStates = d.runtimes := hall rfl
    have hids : (s.store descriptor).ids = d.ids ++ [descriptor.id] := by
      simp [Registry.store, Registry.ids, hs.extensions]
    have hplaces : (s.store descriptor).places = d.places ++ d.runtimes.map (·, descriptor.id) :=
      hs.placed
    refine ⟨⟨hs.accounted.once, hs.accounted.nodup, hs.accounted.origin, hs.accounted.logged⟩, ?_,
      hplaces ▸ hs.nodup, hs.runtimes ▸ hd.runtimes, ?_, ?_⟩
    · intro runtime id
      rw [hids, hplaces, List.mem_append, hd.everywhere]
      change _ ↔ runtime ∈ s.runtimes ∧ _
      rw [hs.runtimes]
      simp only [List.mem_map, Prod.mk.injEq, List.mem_append, List.mem_singleton]
      constructor
      · rintro (⟨hruntime, hid⟩ | ⟨other, hother, rfl, rfl⟩)
        · exact ⟨hruntime, .inl hid⟩
        · exact ⟨hother, .inr rfl⟩
      · rintro ⟨hruntime, hid | rfl⟩
        · exact .inl ⟨hruntime, hid⟩
        · exact .inr ⟨runtime, hruntime, rfl, rfl⟩
    · change s.runtimeStates = s.runtimes
      rw [hs.runtimeStates, hs.runtimes]
      exact hd.runtimeStates
    · intro stored hstored
      have hcases : stored ∈ s.extensions ∨ stored.descriptor.id = stored.id := by
        rcases List.mem_append.mp hstored with hold | hlast
        · exact .inl hold
        · rw [List.mem_singleton.mp hlast]
          exact .inr rfl
      rcases hcases with hold | hsame
      · exact hd.named stored (hs.extensions ▸ hold)
      · exact hsame
  | some message =>
    have hback := ensures_uninstallEach installer d (d.places ++ installedStates.map (·, descriptor.id)) (E := AllOrNothing installer)
      (fun runtime : Runtime => (runtime, descriptor.id)) installedStates.reverse
    rw [filter_taken_back hplace] at hback
    apply ensures_bind (hback.weaken (fun s hs => hs.1) (fun _ _ h => h) fun _ h => h)
    intro _
    exact ensures_raise fun s hs => hs.allOrNothing hd

theorem ensures_unregisterExtension (handleOrId : HandleOrId) :
    Ensures (AllOrNothing installer) (unregisterExtension handleOrId)
      (fun _ => AllOrNothing installer) (AllOrNothing installer) := by
  apply ensures_require_bind _ (fun _ _ h => h)
  intro _
  apply ensures_get
  intro d hd
  cases hfind : d.extension? handleOrId.extensionId with
  | none => exact ensures_pure fun d' hd' => hd' ▸ hd
  | some stored =>
    apply ensures_require_bind _ (fun _ d' hd' => hd' ▸ hd)
    intro _
    have hall : d.runtimes.filter (fun runtime => decide (runtime ∈ d.runtimeStates)) = d.runtimes := by
      apply List.filter_eq_self.mpr
      intro runtime hruntime
      rw [hd.runtimeStates]
      exact decide_eq_true hruntime
    rw [hall]
    have hback := ensures_uninstallEach installer d d.places
      (E := AllOrNothing installer) (fun runtime : Runtime => (runtime, handleOrId.extensionId)) d.runtimes
    refine ensures_bind (hback.weaken ?_ (fun _ _ h => h) fun _ h => h) ?_
    · rintro _ rfl
      exact hd.at
    intro _
    apply ensures_modify_bind (AllOrNothing installer)
    · intro s hs
      have hplaces : (s.forget handleOrId.extensionId).places = d.places.filter fun other =>
          decide (other ∉ d.runtimes.map (·, handleOrId.extensionId)) := hs.placed
      have hids : ∀ id, id ∈ (s.forget handleOrId.extensionId).ids ↔
          id ∈ d.ids ∧ id ≠ handleOrId.extensionId := by
        intro id
        simp only [Registry.forget, Registry.ids, hs.extensions, List.mem_map, List.mem_filter,
          decide_eq_true_eq]
        constructor
        · rintro ⟨other, ⟨hother, hne⟩, rfl⟩
          exact ⟨⟨other, hother, rfl⟩, hne⟩
        · rintro ⟨⟨other, hother, rfl⟩, hne⟩
          exact ⟨other, ⟨hother, hne⟩, rfl⟩
      refine ⟨⟨hs.accounted.once, hs.accounted.nodup, hs.accounted.origin, hs.accounted.logged⟩, ?_,
        hplaces ▸ hs.nodup, hs.runtimes ▸ hd.runtimes, ?_, ?_⟩
      · intro runtime id
        rw [hplaces, List.mem_filter, hd.everywhere, hids, decide_eq_true_eq]
        change _ ↔ runtime ∈ s.runtimes ∧ _
        rw [hs.runtimes]
        simp only [List.mem_map, Prod.mk.injEq]
        constructor
        · rintro ⟨⟨hruntime, hid⟩, hother⟩
          exact ⟨hruntime, hid, fun hsame => hother ⟨runtime, hruntime, rfl, hsame.symm⟩⟩
        · rintro ⟨hruntime, hid, hne⟩
          refine ⟨⟨hruntime, hid⟩, ?_⟩
          rintro ⟨_, _, -, hsame⟩
          exact hne hsame.symm
      · change s.runtimeStates = s.runtimes
        rw [hs.runtimeStates, hs.runtimes]
        exact hd.runtimeStates
      · intro other hother
        exact hd.named other (hs.extensions ▸ List.mem_of_mem_filter hother)
    · exact ensures_pure fun s hs => hs

/-! ## Runtimes -/

theorem AllOrNothing.find_mem (h : AllOrNothing installer d) {id : String} (hid : id ∈ d.ids) :
    ∃ stored, d.extension? id = some stored ∧ stored.descriptor.id = id := by
  obtain ⟨stored, hstored, hsame⟩ := List.mem_map.mp hid
  have hsome : (d.extension? id).isSome = true := by
    unfold Registry.extension?
    rw [List.find?_isSome]
    exact ⟨stored, hstored, decide_eq_true hsame⟩
  obtain ⟨found, hfound⟩ := Option.isSome_iff_exists.mp hsome
  refine ⟨found, hfound, ?_⟩
  have hname : found.id = id := by
    unfold Registry.extension? at hfound
    have hcondition := List.find?_some hfound
    exact of_decide_eq_true hcondition
  rw [h.named found (List.mem_of_find?_eq_some hfound), hname]

theorem ensures_installExisting (hnew : NewHandles installer) (runtime : Runtime) {id : String}
    (hbase : ∃ stored, base.extension? id = some stored ∧ stored.descriptor.id = id) :
    Ensures (At installer base places) (installExisting installer runtime id)
      (fun _ => At installer base (places ++ [(runtime, id)])) (At installer base places) := by
  obtain ⟨stored, hfind, hid⟩ := hbase
  apply ensures_get_kept
  intro d hd
  have hfound : d.extension? id = some stored := by
    rw [Registry.extension?, hd.extensions]
    exact hfind
  rw [hfound, ← hid]
  exact ensures_installExtensionIntoState hnew stored.descriptor runtime

theorem ensures_installRuntime (hnew : NewHandles installer) (runtime : Runtime) :
    Ensures (AllOrNothing installer) (installRuntime installer runtime)
      (fun _ => AllOrNothing installer) (AllOrNothing installer) := by
  apply ensures_get
  intro d hd
  apply ensures_require_bind _ (fun _ d' hd' => hd' ▸ hd)
  intro hfresh
  have hruntime : runtime ∉ d.runtimes := hd.runtimeStates ▸ hfresh
  have hplace : ∀ id : String, (runtime, id) ∉ d.places :=
    fun id hmem => hruntime ((hd.everywhere _ _).mp hmem).1
  have hids : ∀ id, id ∈ d.sortedExtensionIds ↔ id ∈ d.ids := by
    intro id
    exact (List.perm_insertionSort _ _).mem_iff
  have hstart : At installer (d.addRuntime runtime) d.places (d.addRuntime runtime) :=
    ⟨⟨hd.accounted.once, hd.accounted.nodup, hd.accounted.origin, hd.accounted.logged⟩, rfl, hd.once,
      rfl, rfl, rfl⟩
  apply ensures_modify_bind (At installer (d.addRuntime runtime) d.places)
  · rintro _ rfl
    exact hstart
  have hloop : Ensures
      (At installer (d.addRuntime runtime) (d.places ++ ([] : List String).map (runtime, ·)))
      (doEach (installExisting installer runtime) d.sortedExtensionIds)
      (fun answer s =>
        At installer (d.addRuntime runtime) (d.places ++ answer.2.map (runtime, ·)) s ∧
          answer.2 <+: d.sortedExtensionIds ∧ (answer.1 = none → answer.2 = d.sortedExtensionIds))
      (AllOrNothing installer) := by
    apply ensures_doEach
      (I := fun done => At installer (d.addRuntime runtime) (d.places ++ done.map (runtime, ·)))
    intro done id rest hsplit
    rw [List.map_append, ← List.append_assoc]
    apply ensures_installExisting hnew runtime
    apply hd.find_mem
    apply (hids id).mp
    rw [hsplit]
    exact List.mem_append_right _ List.mem_cons_self
  rw [List.map_nil, List.append_nil] at hloop
  apply ensures_bind hloop
  rintro ⟨failure, installedIds⟩
  cases failure with
  | none =>
    apply ensures_pure
    rintro s ⟨hs, -, hall⟩
    obtain rfl : installedIds = d.sortedExtensionIds := hall rfl
    have hplaces : s.places = d.places ++ d.sortedExtensionIds.map (runtime, ·) := hs.placed
    have hextensions : s.ids = d.ids := congrArg (List.map Stored.id) hs.extensions
    have hruntimes : s.runtimes = d.runtimes ++ [runtime] := hs.runtimes
    refine ⟨hs.accounted, ?_, hplaces ▸ hs.nodup, ?_, ?_, ?_⟩
    · intro other id
      rw [hplaces, hextensions, hruntimes, List.mem_append, hd.everywhere]
      simp only [List.mem_map, Prod.mk.injEq, List.mem_append, List.mem_singleton, hids]
      constructor
      · rintro (⟨hother, hid⟩ | ⟨_, hid, rfl, rfl⟩)
        · exact ⟨.inl hother, hid⟩
        · exact ⟨.inr rfl, hid⟩
      · rintro ⟨hother | rfl, hid⟩
        · exact .inl ⟨hother, hid⟩
        · exact .inr ⟨id, hid, rfl, rfl⟩
    · rw [hruntimes]
      refine List.nodup_append.mpr ⟨hd.runtimes, List.nodup_singleton _, ?_⟩
      rintro other hother _ hlast rfl
      exact hruntime (List.mem_singleton.mp hlast ▸ hother)
    · rw [hs.runtimeStates, hruntimes]
      exact congrArg (· ++ [runtime]) hd.runtimeStates
    · intro stored hstored
      exact hd.named stored (hs.extensions ▸ hstored)
  | some message =>
    have hback := ensures_uninstallEach installer (d.addRuntime runtime) (d.places ++ installedIds.map (runtime, ·)) (E := AllOrNothing installer)
      (fun id : String => (runtime, id)) installedIds.reverse
    rw [filter_taken_back hplace] at hback
    apply ensures_bind (hback.weaken (fun s hs => hs.1) (fun _ _ h => h) fun _ h => h)
    intro _
    apply ensures_modify_bind (AllOrNothing installer)
    · intro s hs
      have hkept : s.installed.filter (fun placed => decide (placed.runtime ≠ runtime)) =
          s.installed := by
        apply List.filter_eq_self.mpr
        intro placed hplaced
        apply decide_eq_true
        rintro rfl
        apply hplace placed.extension
        rw [← hs.placed]
        exact List.mem_map_of_mem hplaced
      have hruntimes : (s.removeRuntime runtime).runtimes = d.runtimes := by
        change s.runtimes.erase runtime = d.runtimes
        rw [hs.runtimes, Registry.addRuntime, List.erase_append_right _ hruntime, List.erase_cons_head,
          List.append_nil]
      have hstates : (s.removeRuntime runtime).runtimeStates = d.runtimeStates := by
        change s.runtimeStates.filter _ = d.runtimeStates
        rw [hs.runtimeStates, Registry.addRuntime, List.filter_append, List.filter_eq_self.mpr]
        · simp
        · intro other hother
          apply decide_eq_true
          rintro rfl
          exact hfresh hother
      apply At.allOrNothing _ hd
      refine ⟨⟨?_, hs.accounted.nodup, hs.accounted.origin, ?_⟩, ?_, hd.once, hs.extensions,
        hruntimes, hstates⟩
      · change ((s.installed.filter _).flatMap Placed.handles ++ _).Perm _
        rw [hkept]
        exact hs.accounted.once
      · intro placed hplaced
        exact hs.accounted.logged placed (List.mem_of_mem_filter hplaced)
      · change (s.installed.filter _).map Placed.place = _
        rw [hkept]
        exact hs.placed
    · exact ensures_raise fun s hs => hs

theorem ensures_uninstallRuntime (runtime : Runtime) :
    Ensures (AllOrNothing installer) (uninstallRuntime runtime)
      (fun _ => AllOrNothing installer) (AllOrNothing installer) := by
  apply ensures_get
  intro d hd
  split_ifs with hstate
  · have hback := ensures_uninstallEach installer d d.places
      (E := AllOrNothing installer) (fun id : String => (runtime, id))
      ((d.installed.filter fun placed => decide (placed.runtime = runtime)).map Placed.extension)
    have hleft : d.places.filter (fun other => decide (other ∉
        ((d.installed.filter fun placed => decide (placed.runtime = runtime)).map
          Placed.extension).map (runtime, ·))) = d.places.filter fun other =>
        decide (other.1 ≠ runtime) := by
      apply List.filter_congr
      intro other hother
      obtain ⟨placed, hplaced, rfl⟩ := List.mem_map.mp hother
      rw [decide_eq_decide, not_iff_not]
      simp only [List.mem_map, List.mem_filter, decide_eq_true_eq]
      constructor
      · rintro ⟨_, ⟨_, _, rfl⟩, hsame⟩
        exact (congrArg Prod.fst hsame).symm
      · rintro rfl
        exact ⟨placed.extension, ⟨placed, ⟨hplaced, rfl⟩, rfl⟩, rfl⟩
    rw [hleft] at hback
    refine ensures_bind (hback.weaken ?_ (fun _ _ h => h) fun _ h => h) ?_
    · rintro _ rfl
      exact hd.at
    intro _
    apply ensures_modify_bind (AllOrNothing installer)
    · intro s hs
      have hkept : s.installed.filter (fun placed => decide (placed.runtime ≠ runtime)) =
          s.installed := by
        apply List.filter_eq_self.mpr
        intro placed hplaced
        have hmem : placed.place ∈ d.places.filter fun other => decide (other.1 ≠ runtime) := by
          rw [← hs.placed]
          exact List.mem_map_of_mem hplaced
        exact (List.mem_filter.mp hmem).2
      have hplaces : (s.removeRuntime runtime).places =
          d.places.filter fun other => decide (other.1 ≠ runtime) := by
        change (s.installed.filter _).map Placed.place = _
        rw [hkept]
        exact hs.placed
      have hids : (s.removeRuntime runtime).ids = d.ids := congrArg (List.map Stored.id) hs.extensions
      have hruntimes : (s.removeRuntime runtime).runtimes = d.runtimes.erase runtime :=
        congrArg (List.erase · runtime) hs.runtimes
      refine ⟨⟨?_, hs.accounted.nodup, hs.accounted.origin, ?_⟩, ?_, hplaces ▸ hs.nodup, ?_, ?_, ?_⟩
      · change ((s.installed.filter _).flatMap Placed.handles ++ _).Perm _
        rw [hkept]
        exact hs.accounted.once
      · intro placed hplaced
        exact hs.accounted.logged placed (List.mem_of_mem_filter hplaced)
      · intro other id
        rw [hplaces, hids, hruntimes, List.mem_filter, hd.everywhere, hd.runtimes.mem_erase_iff,
          decide_eq_true_eq]
        tauto
      · rw [hruntimes]
        exact hd.runtimes.erase runtime
      · rw [hruntimes, hd.runtimes.erase_eq_filter]
        change s.runtimeStates.filter _ = _
        rw [hs.runtimeStates, hd.runtimeStates]
        apply List.filter_congr
        intro other _
        rw [Bool.eq_iff_iff, decide_eq_true_eq, bne_iff_ne]
      · intro stored hstored
        exact hd.named stored (hs.extensions ▸ hstored)
    · exact ensures_pure fun s hs => hs
  · exact ensures_pure fun d' hd' => hd' ▸ hd

/-! ## Runs -/

theorem step_allOrNothing (hnew : NewHandles installer) (action : Action)
    (h : AllOrNothing installer d) : AllOrNothing installer (step installer d action) := by
  cases action with
  | registerExtension descriptor =>
    exact (ensures_registerExtension hnew descriptor).left (fun _ _ hs => hs) (fun _ hs => hs) h
  | unregisterExtension handleOrId =>
    exact (ensures_unregisterExtension handleOrId).left (fun _ _ hs => hs) (fun _ hs => hs) h
  | installRuntime runtime =>
    exact (ensures_installRuntime hnew runtime).left (fun _ _ hs => hs) (fun _ hs => hs) h
  | uninstallRuntime runtime =>
    exact (ensures_uninstallRuntime runtime).left (fun _ _ hs => hs) (fun _ hs => hs) h

theorem empty_allOrNothing : AllOrNothing installer Registry.empty where
  accounted := ⟨.refl _, List.nodup_nil, fun _ h => absurd h List.not_mem_nil,
    fun _ h => absurd h List.not_mem_nil⟩
  everywhere := by
    intro runtime id
    simp [Registry.places, Registry.empty]
  once := List.nodup_nil
  runtimes := List.nodup_nil
  runtimeStates := rfl
  named := fun _ h => absurd h List.not_mem_nil

/-- A handle in the registry was never unregistered, and every other one was, once. -/
theorem AllOrNothing.unregistered_count (h : AllOrNothing installer d) {handle : H}
    (hhandle : handle ∈ d.handed) :
    d.unregistered.count handle = if handle ∈ d.stored then 0 else 1 := by
  have hcount : d.stored.count handle + d.unregistered.count handle = 1 := by
    rw [← List.count_append, h.accounted.once.count_eq]
    exact List.count_eq_one_of_mem h.accounted.nodup hhandle
  split_ifs with hstored
  · have hpos := List.count_pos_iff.mpr hstored
    omega
  · have hzero := List.count_eq_zero.mpr hstored
    omega

/-- In every run in which installers hand over new handles, installation is all or nothing. -/
theorem all_or_nothing (installer : Nat → Installer H) (hnew : NewHandles installer)
    (actions : List Action) :
    AllOrNothing installer (actions.foldl (step installer) Registry.empty) ∧
      ∀ handle ∈ (actions.foldl (step installer) Registry.empty).handed,
        (actions.foldl (step installer) Registry.empty).unregistered.count handle =
          if handle ∈ (actions.foldl (step installer) Registry.empty).stored then 0 else 1 := by
  have hrun : AllOrNothing installer (actions.foldl (step installer) Registry.empty) :=
    invariant_foldl (fun _ action h => step_allOrNothing hnew action h) empty_allOrNothing actions
  exact ⟨hrun, fun handle hhandle => hrun.unregistered_count hhandle⟩

/-- The second installation fails after it has recorded its handle. -/
def secondFails (n : Nat) : Installer Nat where
  loaders := ⟨[(none, some (.handle n))],
    if n = 1 then .error "intentional" else .ok (.table none [(.number 1, .handle n)])⟩
  morphs := ⟨[], .error "not installed"⟩

theorem newHandles_secondFails : NewHandles secondFails := by
  have hhands : ∀ n handle, handle ∈ (secondFails n).hands → handle = n := by
    intro n handle hhandle
    by_cases hn : n = 1
    · simpa [secondFails, Installer.hands, Attempt.hands, Attempt.recordedHandles, callHandles,
        selected, Item.handles, Attempt.returnedHandles, hn] using hhandle
    · simpa [secondFails, Installer.hands, Attempt.hands, Attempt.recordedHandles, callHandles,
        selected, Item.handles, Attempt.returnedHandles, Returned.handles, entryHandles, hn] using hhandle
  constructor
  · intro n
    constructor
    · intro returned hreturned
      by_cases hn : n = 1
      · simp [secondFails, hn] at hreturned
      · obtain rfl : Returned.table none [(.number 1, .handle n)] = returned := by
          simpa [secondFails, hn] using hreturned
        trivial
    · intro returned hreturned
      cases hreturned
  · intro m n handle hm hn
    rw [← hhands m handle hm, hhands n handle hn]

def demoExtension : Descriptor := ⟨"demo-extension", "user-demo-extension", ["demo-node"], none, false⟩

def demoRuntime (name : Nat) : Runtime := ⟨name, true, true, true, true⟩

theorem all_or_nothing_secondFails :
    AllOrNothing secondFails ([.installRuntime (demoRuntime 0), .installRuntime (demoRuntime 1),
      .registerExtension demoExtension, .registerExtension demoExtension].foldl (step secondFails)
        Registry.empty) :=
  (all_or_nothing secondFails newHandles_secondFails _).1

/-- A bare handle that was recorded before is unregistered where it comes back and once more when
the installation is taken back. -/
theorem bare_handle_unregistered_twice :
    ¬ ∀ (installer : Nat → Installer Nat) (actions : List Action),
        (∀ m n handle, handle ∈ (installer m).hands → handle ∈ (installer n).hands → m = n) →
        ∀ handle ∈ (actions.foldl (step installer) Registry.empty).handed,
          (actions.foldl (step installer) Registry.empty).unregistered.count handle =
            if handle ∈ (actions.foldl (step installer) Registry.empty).stored then 0 else 1 := by
  intro hclaim
  have hcount := hclaim
    (fun n => ⟨⟨[(none, some (.handle n))], .ok (.table (some n) [])⟩, ⟨[], .error "not installed"⟩⟩)
    [.installRuntime (demoRuntime 0), .registerExtension demoExtension]
    (by
      intro m n handle hm hn
      simp [Installer.hands, Attempt.hands, Attempt.recordedHandles, callHandles, selected,
        Item.handles, Attempt.returnedHandles, Returned.handles, entryHandles] at hm hn
      omega)
    0 (by decide)
  exact absurd hcount (by decide)

end Space2.GraphExtensions
