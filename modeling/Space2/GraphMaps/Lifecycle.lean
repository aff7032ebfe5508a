import Space2.Base.Runs
import Space2.GraphMaps.Manager

/-!
# One map is instantiated

What matters of the manager is which entries there are, which of them have a map
and which one is active. Each call is described by what it does to this view, when
it answers and when it raises.
-/
namespace Space2.GraphMaps

open Space2.Base Op

/-- An entry without its state: its id, its name and whether it has a map. -/
structure Shape where
  id : String
  name : Option String
  live : Bool
deriving DecidableEq, Repr

structure View where
  entries : List Shape
  activeId : String
  activeMapId : String
  activeMapName : Option String
deriving DecidableEq, Repr

namespace View

def setLive (v : View) (id : String) (live : Bool) : View :=
  { v with entries := v.entries.map fun e => if e.id = id then { e with live := live } else e }

def activate (v : View) (id : String) (name : Option String) : View :=
  { v with activeId := id, activeMapId := id, activeMapName := name }

def shape? (v : View) (id : String) : Option Shape := v.entries.find? fun e => decide (e.id = id)

/-- The target has got its map, the active entry has lost its own. -/
def switched (v : View) (target : String) (name : Option String) : View :=
  ((v.setLive target true).setLive v.activeId false).activate target name

/-- What holds between the calls. -/
structure Consistent (v : View) : Prop where
  ids : (v.entries.map Shape.id).Nodup
  safe : ∀ e ∈ v.entries, safeMapId e.id = true
  self : v.activeMapId = v.activeId
  active : ∃ e ∈ v.entries, e.id = v.activeId ∧ v.activeMapName = e.name
  live : ∀ e ∈ v.entries, e.live = decide (e.id = v.activeId)

theorem map_entries {v : View} {f : Shape → Shape} (h : ∀ e ∈ v.entries, f e = e) :
    { v with entries := v.entries.map f } = v := by
  have hsame : v.entries.map f = v.entries := by
    conv_rhs => rw [← List.map_id v.entries]
    exact List.map_congr_left h
  rw [hsame]

theorem setLive_setLive (v : View) (id : String) (first second : Bool) :
    (v.setLive id first).setLive id second = v.setLive id second := by
  unfold setLive
  dsimp only
  rw [List.map_map]
  congr 1
  apply List.map_congr_left
  intro e _
  by_cases he : e.id = id
  · simp [he]
  · simp [he]

theorem setLive_eq_self {v : View} {id : String} {live : Bool}
    (h : ∀ e ∈ v.entries, e.id = id → e.live = live) : v.setLive id live = v := by
  apply map_entries
  intro e he
  split_ifs with hid
  · rw [← h e he hid]
  · rfl

@[simp] theorem setLive_ids (v : View) (id : String) (live : Bool) :
    (v.setLive id live).entries.map Shape.id = v.entries.map Shape.id := by
  unfold setLive
  rw [List.map_map]
  apply List.map_congr_left
  intro e _
  by_cases he : e.id = id <;> simp [he]

theorem mem_setLive {v : View} {id : String} {live : Bool} {e : Shape} :
    e ∈ (v.setLive id live).entries ↔
      ∃ before ∈ v.entries, e = if before.id = id then { before with live := live } else before := by
  unfold setLive
  rw [List.mem_map]
  constructor
  · rintro ⟨before, hbefore, rfl⟩
    exact ⟨before, hbefore, rfl⟩
  · rintro ⟨before, hbefore, rfl⟩
    exact ⟨before, hbefore, rfl⟩

theorem mem_of_shape? {v : View} {id : String} {e : Shape} (h : v.shape? id = some e) :
    e ∈ v.entries ∧ e.id = id := by
  unfold shape? at h
  have hid := List.find?_some h
  exact ⟨List.mem_of_find?_eq_some h, of_decide_eq_true hid⟩

/-- Entries have their own ids. -/
theorem Consistent.unique {v : View} (h : v.Consistent) {e e' : Shape} (he : e ∈ v.entries)
    (he' : e' ∈ v.entries) (hid : e.id = e'.id) : e = e' :=
  List.inj_on_of_nodup_map h.ids he he' hid

theorem Consistent.active_eq {v : View} (h : v.Consistent) {e : Shape} (he : e ∈ v.entries)
    (hid : e.id = v.activeId) : v.activeMapName = e.name := by
  obtain ⟨active, hactive, hactiveId, hname⟩ := h.active
  rw [hname, h.unique hactive he (hactiveId.trans hid.symm)]

/-- The active map and the target change places. -/
theorem Consistent.switched {v : View} (h : v.Consistent) {target : String} {name : Option String}
    (htarget : target ≠ v.activeId) {e : Shape} (he : v.shape? target = some e)
    (hname : e.name = name) : (v.switched target name).Consistent where
  ids := by
    change (((v.setLive target true).setLive v.activeId false).entries.map Shape.id).Nodup
    rw [setLive_ids, setLive_ids]
    exact h.ids
  safe := by
    intro shape hshape
    obtain ⟨between, hbetween, rfl⟩ := mem_setLive.mp hshape
    obtain ⟨before, hbefore, rfl⟩ := mem_setLive.mp hbetween
    split_ifs <;> exact h.safe before hbefore
  self := rfl
  active := by
    obtain ⟨hmem, rfl⟩ := mem_of_shape? he
    refine ⟨{ e with live := true }, ?_, rfl, hname.symm⟩
    apply mem_setLive.mpr
    refine ⟨{ e with live := true }, mem_setLive.mpr ⟨e, hmem, (if_pos rfl).symm⟩, ?_⟩
    exact (if_neg htarget).symm
  live := by
    intro shape hshape
    obtain ⟨between, hbetween, rfl⟩ := mem_setLive.mp hshape
    obtain ⟨before, hbefore, rfl⟩ := mem_setLive.mp hbetween
    change _ = decide (_ = target)
    by_cases hbeforeTarget : before.id = target
    · have hother : before.id ≠ v.activeId := fun heq => htarget (hbeforeTarget.symm.trans heq)
      simp [hbeforeTarget, htarget]
    · by_cases hactive : before.id = v.activeId
      · simp [hactive, hbeforeTarget, Ne.symm htarget]
      · simp [hactive, hbeforeTarget, h.live before hbefore]

end View

/-! ## The view of a manager -/

variable {W M S : Type}

def Entry.shape (entry : Entry M S) : Shape := ⟨entry.id, entry.name, entry.map.isSome⟩

namespace Manager

variable (m : Manager W M S)

def view : View := ⟨m.entries.map Entry.shape, m.activeId, m.activeMapId, m.activeMapName⟩

theorem view_shape? (id : String) : m.view.shape? id = (m.entry? id).map Entry.shape := by
  unfold View.shape? entry? view
  rw [List.find?_map]
  rfl

theorem view_update (id : String) (f : Entry M S → Entry M S) (g : Shape → Shape)
    (h : ∀ entry, (f entry).shape = g entry.shape) :
    (m.update id f).view =
      { m.view with entries := m.view.entries.map fun e => if e.id = id then g e else e } := by
  unfold update view
  congr 1
  rw [List.map_map, List.map_map]
  apply List.map_congr_left
  intro entry _
  change (if entry.id = id then f entry else entry).shape =
    if entry.shape.id = id then g entry.shape else entry.shape
  by_cases hid : entry.id = id
  · have hshape : entry.shape.id = id := hid
    rw [if_pos hid, if_pos hshape, h]
  · have hshape : ¬ entry.shape.id = id := hid
    rw [if_neg hid, if_neg hshape]

theorem view_setMap (id : String) (map : Option M) :
    (m.setMap id map).view = m.view.setLive id map.isSome :=
  m.view_update id _ (fun e => { e with live := map.isSome }) fun _ => rfl

theorem view_setState (id : String) (state : S) : (m.setState id state).view = m.view := by
  unfold setState
  rw [m.view_update id (fun entry => { entry with state := state }) (fun e => e) fun _ => rfl]
  apply View.map_entries
  intro e _
  exact ite_self e

theorem view_activate (id : String) (name : Option String) :
    (m.activate id name).view = m.view.activate id name := rfl

end Manager

def Viewed (v : View) (m : Manager W M S) : Prop := m.view = v

/-! ## Operations of the maps -/

variable {v : View} {α : Type}

theorem ensures_outside (p : Op W α) :
    Ensures (Viewed v : Manager W M S → Prop) (outside p) (fun _ => Viewed v) (Viewed v) := by
  intro m hm
  constructor
  · intro a m' hrun
    obtain ⟨-, rfl⟩ := Prod.mk.inj hrun
    exact hm
  · intro message m' hrun
    obtain ⟨-, rfl⟩ := Prod.mk.inj hrun
    exact hm

theorem ensures_onEntry (id : String) (p : Op (W × S) Unit) :
    Ensures (Viewed v : Manager W M S → Prop) (onEntry id p) (fun _ => Viewed v) (Viewed v) := by
  intro m hm
  have hleft : ∀ result m', onEntry id p m = (result, m') → m'.view = v := by
    intro result m' hrun
    unfold onEntry at hrun
    cases hfind : m.entry? id with
    | none =>
      rw [hfind] at hrun
      obtain ⟨-, rfl⟩ := Prod.mk.inj hrun
      exact hm
    | some entry =>
      rw [hfind] at hrun
      obtain ⟨-, rfl⟩ := Prod.mk.inj hrun
      exact (Manager.view_setState _ id _).trans hm
  exact ⟨fun _ m' hrun => hleft _ m' hrun, fun _ m' hrun => hleft _ m' hrun⟩

theorem ensures_setMap {E : Manager W M S → Prop} (id : String) (map : Option M) :
    Ensures (Viewed v) (modify fun m : Manager W M S => m.setMap id map)
      (fun _ => Viewed (v.setLive id map.isSome)) E := by
  apply ensures_modify
  intro m hm
  rw [Viewed, m.view_setMap, hm]

variable (maps : Maps W M S)

theorem ensures_hydrate (entry : Entry M S) :
    Ensures (Viewed v) (hydrate maps entry) (fun _ => Viewed (v.setLive entry.id true)) (Viewed v) := by
  apply ensures_bind (ensures_outside _)
  intro map
  apply ensures_bind (ensures_setMap entry.id (some map))
  intro _
  exact ensures_pure fun _ hm => hm

theorem ensures_hydrateActive (entry : Entry M S) :
    Ensures (Viewed v) (hydrateActive maps entry) (fun _ => Viewed (v.setLive entry.id true))
      (fun m => Viewed v m ∨ Viewed (v.setLive entry.id true) m) := by
  apply ensures_bind ((ensures_hydrate maps entry).weaken (fun _ h => h) (fun _ _ h => h) fun _ h => .inl h)
  intro map
  apply ensures_bind ((ensures_onEntry entry.id _).weaken (fun _ h => h) (fun _ _ h => h)
    fun _ h => .inr h)
  intro _
  split_ifs with hseed
  · exact (ensures_onEntry entry.id _).weaken (fun _ h => h) (fun _ _ h => h) fun _ h => .inr h
  · exact ensures_pure fun _ hm => hm

theorem ensures_dropMap (id : String) :
    Ensures (Viewed v) (dropMap maps id) (fun _ => Viewed (v.setLive id false))
      (Viewed (v.setLive id false)) := by
  apply ensures_get_kept
  intro m hm
  apply ensures_bind (ensures_setMap id none)
  intro _
  cases (m.entry? id).bind Entry.map with
  | none => exact ensures_pure fun _ h => h
  | some map => exact ensures_outside _

/-- The entry gets its map, or is left without one. -/
theorem ensures_buildActiveMap (target : String)
    (hnone : ∀ e ∈ v.entries, e.id = target → e.live = false) :
    Ensures (Viewed v) (buildActiveMap maps target) (fun _ => Viewed (v.setLive target true))
      (Viewed v) := by
  apply ensures_get
  intro m hm
  have hback : v.setLive target false = v := View.setLive_eq_self hnone
  cases hfind : m.entry? target with
  | none =>
    apply ensures_pure
    rintro s rfl
    have hshape : v.shape? target = none := by
      rw [← hm, s.view_shape?, hfind]
      rfl
    rw [Viewed, View.setLive_eq_self]
    · exact hm
    · intro e he hid
      have hno := List.find?_eq_none.mp hshape e he
      exact absurd (decide_eq_true hid) hno
  | some entry =>
    have hid : entry.id = target := by
      unfold Manager.entry? at hfind
      have hfound := List.find?_some hfind
      exact of_decide_eq_true hfound
    apply ensures_require_bind
    · intro _
      have hbuilt := (ensures_caught (R := Viewed v) (ensures_hydrateActive maps (v := v) entry))
      refine ensures_bind (hbuilt.weaken ?_ (fun _ _ h => h) fun _ h => h) ?_
      · rintro _ rfl
        exact hm
      intro result
      cases result with
      | ok value =>
        rw [hid]
        exact ensures_pure fun _ h => h
      | error message =>
        have hdropped : ∀ before : View, before.setLive target false = v →
            Ensures (Viewed before) (caught (dropMap maps entry.id)) (fun _ => Viewed v) (Viewed v) := by
          intro before hbefore
          rw [hid, ← hbefore]
          exact ensures_caught_kept (ensures_dropMap maps target)
        have hboth : Ensures (fun m => Viewed v m ∨ Viewed (v.setLive entry.id true) m)
            (caught (dropMap maps entry.id)) (fun _ => Viewed v) (Viewed v) := by
          intro m hm
          rcases hm with hm | hm
          · exact hdropped v hback m hm
          · refine hdropped _ ?_ m hm
            rw [hid, View.setLive_setLive, hback]
        apply ensures_bind hboth
        intro dropped
        cases dropped with
        | ok value => exact ensures_raise fun _ h => h
        | error dropMessage => exact ensures_raise fun _ h => h
    · rintro _ _ rfl
      exact hm

theorem ensures_captureEntry (id : String) (map : M) :
    Ensures (Viewed v) (captureEntry maps id map) (fun _ => Viewed v) (Viewed v) := by
  apply ensures_bind (ensures_outside _)
  intro state
  apply ensures_modify
  intro m hm
  exact (m.view_setState id state).trans hm

/-- An inactive entry has its map only while it is captured. -/
theorem ensures_hydrateInactive (entry : Entry M S)
    (hnone : ∀ e ∈ v.entries, e.id = entry.id → e.live = false) :
    Ensures (Viewed v) (hydrateInactiveEntryForCapture maps entry) (fun _ => Viewed v) (Viewed v) := by
  have hback : (v.setLive entry.id true).setLive entry.id false = v := by
    rw [View.setLive_setLive, View.setLive_eq_self hnone]
  have hbody : ∀ (before : View) (map : M), Ensures (Viewed before)
      (do
        onEntry entry.id (maps.pruneHydratedMap map)
        captureEntry maps entry.id map)
      (fun _ => Viewed before) (Viewed before) := by
    intro before map
    apply ensures_bind (ensures_onEntry entry.id _)
    intro _
    exact ensures_captureEntry maps entry.id map
  unfold hydrateInactiveEntryForCapture
  cases entry.map with
  | some map => exact hbody v map
  | none =>
    apply ensures_bind (ensures_hydrate maps entry)
    intro map
    apply ensures_bind (ensures_caught_kept (hbody _ map))
    intro result
    have hdropped := ensures_caught_kept (E := Viewed v)
      (ensures_dropMap maps (v := v.setLive entry.id true) entry.id)
    rw [hback] at hdropped
    apply ensures_bind hdropped
    intro dropped
    cases result with
    | error message =>
      cases dropped <;> exact ensures_raise fun _ h => h
    | ok value =>
      cases dropped with
      | error dropMessage => exact ensures_raise fun _ h => h
      | ok value => exact ensures_pure fun _ h => h

theorem ensures_dropActiveMap {e : Shape} (he : v.shape? v.activeId = some e)
    (hlive : e.live = true) :
    Ensures (Viewed v) (dropActiveMap maps) (fun _ => Viewed (v.setLive v.activeId false))
      (Viewed v) := by
  apply ensures_get
  intro m hm
  have hactive : m.activeId = v.activeId := congrArg View.activeId hm
  have hmap : ∃ map, (m.entry? m.activeId).bind Entry.map = some map := by
    rw [← hm] at he
    rw [m.view_shape?, Option.map_eq_some_iff] at he
    obtain ⟨entry, hentry, rfl⟩ := he
    obtain ⟨map, hsome⟩ := Option.isSome_iff_exists.mp hlive
    refine ⟨map, ?_⟩
    change m.entry? m.activeId = some entry at hentry
    rw [hentry]
    exact hsome
  obtain ⟨map, hmap⟩ := hmap
  rw [hmap]
  refine ensures_bind ((ensures_captureEntry maps (v := v) _ map).weaken ?_ (fun _ _ h => h) fun _ h => h) ?_
  · rintro _ rfl
    exact hm
  intro _
  apply ensures_bind (ensures_outside _)
  intro _
  rw [hactive]
  exact ensures_setMap v.activeId none

end Space2.GraphMaps
