import Space2.GraphExtensions.Handles

/-!
# Where the handles are

Every handle that was handed over is in the registry, for an extension in a
runtime, or was unregistered once. The installers hand over new handles each time.
-/
namespace Space2.GraphExtensions

open Space2.Base Op

variable {H : Type} [DecidableEq H] (installer : Nat → Installer H)

/-- An installation hands over handles that no other one hands over. -/
def NewHandles : Prop :=
  (∀ n, (installer n).BareIsNew) ∧
    ∀ m n handle, handle ∈ (installer m).hands → handle ∈ (installer n).hands → m = n

namespace Registry

def stored (d : Registry H) : List H := d.installed.flatMap Placed.handles

def handed (d : Registry H) : List H := d.log.flatMap Placed.handles

end Registry

def Placed.place (placed : Placed H) : Runtime × String := (placed.runtime, placed.extension)

def Registry.places (d : Registry H) : List (Runtime × String) := d.installed.map Placed.place

def Registry.ids (d : Registry H) : List String := d.extensions.map Stored.id

/-- All handles are accounted for. -/
structure Accounted (d : Registry H) : Prop where
  once : (d.stored ++ d.unregistered).Perm d.handed
  nodup : d.handed.Nodup
  origin : ∀ handle ∈ d.handed, ∃ n < d.installs, handle ∈ (installer n).hands
  /-- What is installed is all that its installer handed over. -/
  logged : ∀ placed ∈ d.installed, placed ∈ d.log

/-- The registry while its handles change at some places, nothing else. -/
structure At (base : Registry H) (places : List (Runtime × String)) (d : Registry H) : Prop where
  accounted : Accounted installer d
  placed : d.installed.map Placed.place = places
  nodup : places.Nodup
  extensions : d.extensions = base.extensions
  runtimes : d.runtimes = base.runtimes
  runtimeStates : d.runtimeStates = base.runtimeStates

variable {installer} {base d : Registry H} {places : List (Runtime × String)}

theorem At.handles?_isNone (h : At installer base places d) (runtime : Runtime) (id : String) :
    (d.handles? runtime id).isNone = true ↔ (runtime, id) ∉ places := by
  unfold Registry.handles?
  rw [Option.isNone_iff_eq_none, List.find?_eq_none, ← h.placed, List.mem_map]
  constructor
  · rintro hnone ⟨placed, hplaced, hplace⟩
    have hfields := Prod.mk.inj hplace
    exact hnone placed hplaced (decide_eq_true hfields)
  · intro hnone placed hplaced hfields
    exact hnone ⟨placed, hplaced, Prod.ext (of_decide_eq_true hfields).1 (of_decide_eq_true hfields).2⟩

/-! ## One installation -/

theorem mem_handed {l : List (Placed H)} {handle : H} :
    handle ∈ l.flatMap Placed.handles ↔ ∃ placed ∈ l, handle ∈ placed.handles := List.mem_flatMap

/-- The log has no handle of an installation that is yet to come. -/
theorem Accounted.nodup_logged (hnew : NewHandles installer) (h : Accounted installer d)
    {handed : List H} (hnodup : handed.Nodup)
    (hhands : ∀ handle ∈ handed, handle ∈ (installer d.installs).hands) :
    (d.handed ++ handed).Nodup := by
  refine List.nodup_append.mpr ⟨h.nodup, hnodup, ?_⟩
  rintro handle hbefore other hother rfl
  obtain ⟨n, hn, hold⟩ := h.origin handle hbefore
  have hsame := hnew.2 n d.installs handle hold (hhands handle hother)
  omega

theorem Accounted.origin_logged (h : Accounted installer d) {handed : List H}
    (hhands : ∀ handle ∈ handed, handle ∈ (installer d.installs).hands) :
    ∀ handle ∈ d.handed ++ handed, ∃ n < d.installs + 1, handle ∈ (installer n).hands := by
  intro handle hhandle
  rcases List.mem_append.mp hhandle with hbefore | hnow
  · obtain ⟨n, hn, hold⟩ := h.origin handle hbefore
    exact ⟨n, by omega, hold⟩
  · exact ⟨d.installs, by omega, hhands handle hnow⟩

theorem handed_logged (runtime : Runtime) (id : String) (i : Install H) :
    (d.logged runtime id i).handed = d.handed ++ i.handed := by
  simp [Registry.logged, Registry.handed]

/-- An installation that has failed. -/
theorem Accounted.failed (hnew : NewHandles installer) (h : Accounted installer d)
    (runtime : Runtime) (id : String) {i : Install H} (hi : i.Settled (installer d.installs).hands) :
    Accounted installer (d.logged runtime id i.unregisterHandles) where
  once := by
    have hall : (i.unregistered ++ i.handles.reverse).Perm i.handed :=
      (List.perm_append_comm.trans ((List.reverse_perm i.handles).append_right _)).trans hi.once
    rw [handed_logged]
    change (d.stored ++ (d.unregistered ++ (i.unregistered ++ i.handles.reverse))).Perm
      (d.handed ++ i.handed)
    rw [← List.append_assoc]
    exact h.once.append hall
  nodup := by
    rw [handed_logged]
    exact h.nodup_logged hnew hi.nodup hi.handed
  origin := by
    rw [handed_logged]
    exact h.origin_logged hi.handed
  logged := fun placed hplaced => List.mem_append_left _ (h.logged placed hplaced)

/-- An installation that has succeeded. -/
theorem Accounted.succeeded (hnew : NewHandles installer) (h : Accounted installer d)
    (runtime : Runtime) (id : String) {i : Install H} (hi : i.Settled (installer d.installs).hands)
    (hkept : i.handles = i.handed) (hunregistered : i.unregistered = []) :
    Accounted installer ((d.logged runtime id i).place runtime id i.handles) where
  once := by
    change ((d.installed ++ [(⟨runtime, id, i.handles⟩ : Placed H)]).flatMap Placed.handles ++
      (d.unregistered ++ i.unregistered)).Perm (d.logged runtime id i).handed
    rw [handed_logged, hunregistered, List.append_nil, List.flatMap_append, List.flatMap_singleton,
      hkept, List.append_assoc]
    refine (List.perm_append_comm.append_left _).trans ?_
    rw [← List.append_assoc]
    exact h.once.append_right _
  nodup := by
    change ((d.logged runtime id i).handed).Nodup
    rw [handed_logged]
    exact h.nodup_logged hnew hi.nodup hi.handed
  origin := by
    change ∀ handle ∈ (d.logged runtime id i).handed, ∃ n < d.installs + 1, _
    rw [handed_logged]
    exact h.origin_logged hi.handed
  logged := by
    intro placed hplaced
    rcases List.mem_append.mp hplaced with hbefore | hnow
    · exact List.mem_append_left _ (h.logged placed hbefore)
    · rw [List.mem_singleton.mp hnow, hkept]
      exact List.mem_append_right _ (List.mem_singleton_self _)

/-- What an installation that is begun in `d` leaves. -/
theorem ensures_installExtensionIntoRuntime (hnew : NewHandles installer) (descriptor : Descriptor)
    (runtime : Runtime) (h : Accounted installer d) :
    Ensures (· = d) (installExtensionIntoRuntime installer descriptor runtime)
      (fun handles d' => Accounted installer (d'.place runtime descriptor.id handles) ∧
        d'.installed = d.installed ∧ d'.extensions = d.extensions ∧ d'.runtimes = d.runtimes ∧
        d'.runtimeStates = d.runtimeStates)
      (fun d' => Accounted installer d' ∧
        d'.installed = d.installed ∧ d'.extensions = d.extensions ∧ d'.runtimes = d.runtimes ∧
        d'.runtimeStates = d.runtimeStates) := by
  have hrefused : ∀ d', d' = d → Accounted installer d' ∧ d'.installed = d.installed ∧
      d'.extensions = d.extensions ∧ d'.runtimes = d.runtimes ∧
      d'.runtimeStates = d.runtimeStates := by
    rintro d' rfl
    exact ⟨h, rfl, rfl, rfl, rfl⟩
  apply ensures_require_bind _ (fun _ => hrefused)
  intro _
  apply ensures_require_bind _ (fun _ => hrefused)
  intro _
  apply ensures_require_bind _ (fun _ => hrefused)
  intro _
  apply ensures_get
  rintro s rfl
  have hbody := ensures_installBody descriptor runtime (installer s.installs) (hnew.1 _)
  have hstart : (Install.empty : Install H).Collected [] := ⟨rfl, rfl, rfl⟩
  cases hrun : installBody descriptor runtime (installer s.installs) Install.empty with
  | mk result i =>
    cases result with
    | ok value =>
      obtain ⟨hsettled, hkept, hunregistered⟩ := hbody.ok hstart hrun
      apply ensures_modify_bind (· = s.logged runtime descriptor.id i)
      · rintro _ rfl
        rfl
      · apply ensures_pure
        rintro _ rfl
        exact ⟨h.succeeded hnew runtime descriptor.id hsettled hkept hunregistered, rfl, rfl, rfl, rfl⟩
    | error message =>
      have hsettled := hbody.error hstart hrun
      apply ensures_modify_bind (· = s.logged runtime descriptor.id i.unregisterHandles)
      · rintro _ rfl
        rfl
      · apply ensures_raise
        rintro _ rfl
        exact ⟨h.failed hnew runtime descriptor.id hsettled, rfl, rfl, rfl, rfl⟩

theorem ensures_installExtensionIntoState (hnew : NewHandles installer) (descriptor : Descriptor)
    (runtime : Runtime) :
    Ensures (At installer base places) (installExtensionIntoState installer descriptor runtime)
      (fun _ => At installer base (places ++ [(runtime, descriptor.id)]))
      (At installer base places) := by
  apply ensures_get
  intro d hd
  apply ensures_require_bind
  · intro hnone
    have hplace := (hd.handles?_isNone runtime descriptor.id).mp hnone
    refine ensures_bind ((ensures_installExtensionIntoRuntime hnew descriptor runtime
      hd.accounted).weaken (fun _ h => h) (fun _ _ h => h) ?_) ?_
    · rintro d' ⟨haccounted, hinstalled, hextensions, hruntimes, hstates⟩
      exact ⟨haccounted, hinstalled ▸ hd.placed, hd.nodup, hextensions.trans hd.extensions,
        hruntimes.trans hd.runtimes, hstates.trans hd.runtimeStates⟩
    · intro handles
      apply ensures_modify
      rintro d' ⟨haccounted, hinstalled, hextensions, hruntimes, hstates⟩
      refine ⟨haccounted, ?_, ?_, hextensions.trans hd.extensions,
        hruntimes.trans hd.runtimes, hstates.trans hd.runtimeStates⟩
      · change (d'.installed ++ [(⟨runtime, descriptor.id, handles⟩ : Placed H)]).map Placed.place = _
        rw [List.map_append, hinstalled, hd.placed]
        rfl
      · refine List.nodup_append.mpr ⟨hd.nodup, List.nodup_singleton _, ?_⟩
        rintro place hmem other hother rfl
        exact hplace (List.mem_singleton.mp hother ▸ hmem)
  · rintro _ d' rfl
    exact hd

/-! ## Taking an installation back -/

theorem perm_filter_place {l : List (Placed H)} (hnodup : (l.map Placed.place).Nodup)
    {placed : Placed H} (hmem : placed ∈ l) :
    l.Perm (placed :: l.filter placed.elsewhere) := by
  induction l with
  | nil => cases hmem
  | cons first rest ih =>
    rw [List.map_cons, List.nodup_cons] at hnodup
    by_cases hfirst : first.runtime = placed.runtime ∧ first.extension = placed.extension
    · have hplace : first.place = placed.place := Prod.ext hfirst.1 hfirst.2
      have hout : ∀ other ∈ rest, other.place ≠ placed.place := by
        intro other hother hsame
        exact hnodup.1 (hplace ▸ hsame ▸ List.mem_map_of_mem hother)
      have hsame : first = placed := by
        rcases List.mem_cons.mp hmem with heq | hrest
        · exact heq.symm
        · exact absurd rfl (hout placed hrest)
      have hdrop : ¬ placed.elsewhere first = true := by
        simpa [Placed.elsewhere] using hfirst
      rw [List.filter_cons_of_neg hdrop, hsame, List.filter_eq_self.mpr]
      intro other hother
      apply decide_eq_true
      intro hother'
      exact hout other hother (Prod.ext hother'.1 hother'.2)
    · have hrest : placed ∈ rest := by
        rcases List.mem_cons.mp hmem with rfl | hrest
        · exact absurd ⟨rfl, rfl⟩ hfirst
        · exact hrest
      have hkeep : placed.elsewhere first = true := decide_eq_true hfirst
      rw [List.filter_cons_of_pos hkeep]
      exact ((ih hnodup.2 hrest).cons first).trans (List.Perm.swap _ _ _)

variable (installer base places) in
theorem ensures_uninstallExtensionFromState {E : Registry H → Prop} (runtime : Runtime) (id : String) :
    Ensures (At installer base places) (uninstallExtensionFromState runtime id)
      (fun _ => At installer base (places.filter fun place => decide (place ≠ (runtime, id)))) E := by
  apply ensures_get
  intro d hd
  cases hfind : d.handles? runtime id with
  | none =>
    apply ensures_pure
    rintro _ rfl
    have hplace := (hd.handles?_isNone runtime id).mp (by rw [hfind]; rfl)
    rw [List.filter_eq_self.mpr]
    · exact hd
    · intro place hmem
      apply decide_eq_true
      rintro rfl
      exact hplace hmem
  | some placed =>
    have hmem : placed ∈ d.installed := List.mem_of_find?_eq_some hfind
    have hfields : placed.runtime = runtime ∧ placed.extension = id := by
      unfold Registry.handles? at hfind
      have hfound := List.find?_some hfind
      exact of_decide_eq_true hfound
    obtain ⟨rfl, rfl⟩ := hfields
    have hperm := perm_filter_place (hd.placed ▸ hd.nodup) hmem
    apply ensures_modify
    rintro s rfl
    refine ⟨⟨?_, hd.accounted.nodup, hd.accounted.origin, ?_⟩, ?_, hd.nodup.filter _, hd.extensions,
      hd.runtimes, hd.runtimeStates⟩
    · refine List.Perm.trans ?_ hd.accounted.once
      have hstored := hperm.flatMap_right Placed.handles
      rw [List.flatMap_cons] at hstored
      refine List.Perm.trans ?_ (hstored.symm.append_right s.unregistered)
      change (List.flatMap Placed.handles _ ++ (s.unregistered ++ placed.handles.reverse)).Perm _
      rw [← List.append_assoc]
      refine List.perm_append_comm.trans ?_
      rw [List.append_assoc]
      exact (List.reverse_perm placed.handles).append_right _
    · intro other hother
      exact hd.accounted.logged other (List.mem_of_mem_filter hother)
    · change (s.installed.filter _).map Placed.place = _
      rw [← hd.placed, List.filter_map]
      congr 1
      apply List.filter_congr
      intro other _
      simp only [Function.comp, Placed.elsewhere, Placed.place, ne_eq, Prod.mk.injEq]

variable (installer base places) in
/-- A loop that takes installations back, each named by a member of a list. -/
theorem ensures_uninstallEach {β : Type} {E : Registry H → Prop} (place : β → Runtime × String)
    (l : List β) :
    Ensures (At installer base places)
      (forEach l fun b => uninstallExtensionFromState (place b).1 (place b).2)
      (fun _ => At installer base (places.filter fun other => decide (other ∉ l.map place))) E := by
  have hloop : Ensures
      (At installer base (places.filter fun other => decide (other ∉ ([] : List β).map place)))
      (forEach l fun b => uninstallExtensionFromState (place b).1 (place b).2)
      (fun _ => At installer base (places.filter fun other => decide (other ∉ l.map place))) E := by
    apply ensures_forEach (I := fun visited =>
      At installer base (places.filter fun other => decide (other ∉ visited.map place)))
    intro visited b rest _
    have hone := ensures_uninstallExtensionFromState installer base
      (places.filter fun other => decide (other ∉ visited.map place)) (E := E)
      (place b).1 (place b).2
    rw [List.filter_filter] at hone
    convert hone using 4
    funext other
    rw [Bool.eq_iff_iff]
    simp
    tauto
  simpa using hloop

end Space2.GraphExtensions
