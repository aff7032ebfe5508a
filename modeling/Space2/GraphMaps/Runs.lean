import Space2.Base.Runs
import Space2.GraphMaps.Lifecycle

/-!
# Runs of the graph map manager

Every call keeps the manager consistent, wherever it raises.
-/
namespace Space2.GraphMaps

open Space2.Base Op

variable {W M S : Type} (maps : Maps W M S) {v : View}

/-! ## Switching -/

theorem View.shape?_setLive (v : View) (id other : String) (live : Bool) :
    (v.setLive id live).shape? other =
      (v.shape? other).map fun e => if e.id = id then { e with live := live } else e := by
  unfold shape? setLive
  rw [List.find?_map]
  congr 2
  funext e
  simp only [Function.comp]
  by_cases he : e.id = id <;> simp [he]

theorem View.Consistent.shape?_active (h : v.Consistent) :
    ∃ e, v.shape? v.activeId = some e ∧ e.live = true ∧ v.activeMapName = e.name := by
  obtain ⟨active, hactive, hid, -⟩ := h.active
  have hsome : (v.shape? v.activeId).isSome = true := by
    unfold shape?
    rw [List.find?_isSome]
    exact ⟨active, hactive, decide_eq_true hid⟩
  obtain ⟨e, he⟩ := Option.isSome_iff_exists.mp hsome
  obtain ⟨hmem, heid⟩ := mem_of_shape? he
  refine ⟨e, he, ?_, h.active_eq hmem heid⟩
  rw [h.live e hmem]
  exact decide_eq_true heid

theorem View.Consistent.activate_self (h : v.Consistent) :
    v.activate v.activeId v.activeMapName = v := by
  obtain ⟨entries, activeId, activeMapId, activeMapName⟩ := v
  obtain rfl : activeMapId = activeId := h.self
  rfl

theorem View.Consistent.active_name (h : v.Consistent) {m : Manager W M S} (hm : m.view = v) :
    (m.entry? v.activeId).bind Entry.name = v.activeMapName := by
  obtain ⟨e, he, -, hname⟩ := h.shape?_active
  rw [hname]
  subst hm
  rw [m.view_shape?, Option.map_eq_some_iff] at he
  obtain ⟨entry, hentry, rfl⟩ := he
  rw [hentry]
  rfl

/-- What a switch may leave: the old map or the new one. -/
def Switched (v : View) (target : String) (m : Manager W M S) : Prop :=
  m.view = v ∨ ∃ e, v.shape? target = some e ∧ target ≠ v.activeId ∧
    m.view = v.switched target e.name

theorem Switched.consistent (hv : v.Consistent) {target : String} {m : Manager W M S}
    (h : Switched v target m) : m.view.Consistent := by
  rcases h with h | ⟨e, he, htarget, h⟩
  · rw [h]
    exact hv
  · rw [h]
    exact hv.switched htarget he rfl

theorem Switched.active {target : String} {m : Manager W M S} (h : Switched v target m) :
    m.activeId = v.activeId ∨ m.activeId = target := by
  rcases h with h | ⟨e, -, -, h⟩
  · exact .inl (congrArg View.activeId h)
  · exact .inr (congrArg View.activeId h)

theorem ensures_leavePrevious (hv : v.Consistent) {target : String} (htarget : target ≠ v.activeId) :
    Ensures (Viewed (v.setLive target true)) (leavePrevious maps v.activeId target)
      (fun _ => Viewed ((v.setLive target true).setLive v.activeId false))
      (Viewed (v.setLive target true)) := by
  apply ensures_bind (ensures_outside _)
  intro _
  obtain ⟨e, he, hlive, -⟩ := hv.shape?_active
  have hid := (View.mem_of_shape? he).2
  refine ensures_dropActiveMap maps (v := v.setLive target true) (e := e) ?_ hlive
  change (v.setLive target true).shape? v.activeId = some e
  rw [View.shape?_setLive, he, Option.map_some, if_neg (fun heq => htarget (heq.symm.trans hid))]

theorem ensures_switchMap (hv : v.Consistent) (target : String) :
    Ensures (Viewed v) (switchMap maps target) (fun _ => Switched v target) (Switched v target) := by
  apply ensures_get
  intro m hm
  have hactiveId : m.activeId = v.activeId := congrArg View.activeId hm
  cases hfind : m.entry? target with
  | none =>
    apply ensures_raise
    rintro _ rfl
    exact .inl hm
  | some entry =>
    have hshape : v.shape? target = some entry.shape := by
      rw [← hm, m.view_shape?, hfind]
      rfl
    dsimp only
    rw [hactiveId]
    split_ifs with htarget
    · apply ensures_pure
      rintro _ rfl
      exact .inl hm
    · have hdead : ∀ e ∈ v.entries, e.id = target → e.live = false := by
        intro e he hid
        rw [hv.live e he]
        exact decide_eq_false fun heq => htarget (hid.symm.trans heq)
      have hback : (v.setLive target true).setLive target false = v := by
        rw [View.setLive_setLive, View.setLive_eq_self hdead]
      refine ensures_bind ((ensures_buildActiveMap maps target hdead).weaken ?_ (fun _ _ h => h)
        fun _ h => .inl h) ?_
      · rintro _ rfl
        exact hm
      intro _
      apply ensures_bind (ensures_caught (ensures_leavePrevious maps hv htarget))
      intro left
      cases left with
      | ok value =>
        apply ensures_modify_bind (Viewed (v.switched target entry.name))
        · intro m' hm'
          rw [Viewed, Manager.view_activate, show m'.view = _ from hm']
          rfl
        · have hswitched : ∀ m' : Manager W M S, Viewed (v.switched target entry.name) m' →
              Switched v target m' := fun m' hm' => .inr ⟨entry.shape, hshape, htarget, hm'⟩
          exact (ensures_outside _).weaken (fun _ h => h) (fun _ => hswitched) hswitched
      | error message =>
        have hdropped := ensures_caught_kept (E := Switched v target)
          (ensures_dropMap maps (v := v.setLive target true) target)
        rw [hback] at hdropped
        apply ensures_bind hdropped
        intro dropped
        cases dropped with
        | error dropMessage => exact ensures_raise fun _ h => .inl h
        | ok value =>
          apply ensures_modify_bind (Viewed v)
          · intro m' hm'
            have hview : m'.view = v := hm'
            rw [Viewed, Manager.view_activate, hview, hv.active_name hview, hv.activate_self]
          · exact ensures_raise fun _ h => .inl h

/-! ## Creating, renaming and deleting -/

def View.ids (v : View) : List String := v.entries.map Shape.id

def View.add (v : View) (id : String) (name : Option String) : View :=
  { v with entries := v.entries ++ [⟨id, name, false⟩] }

theorem View.Consistent.add (h : v.Consistent) {id : String} (name : Option String)
    (hsafe : safeMapId id = true) (hnew : id ∉ v.ids) : (v.add id name).Consistent where
  ids := by
    change ((v.entries ++ [_]).map Shape.id).Nodup
    rw [List.map_append]
    refine List.nodup_append.mpr ⟨h.ids, List.nodup_singleton _, ?_⟩
    rintro other hother _ hlast rfl
    obtain rfl : other = id := List.mem_singleton.mp hlast
    exact hnew hother
  safe := by
    intro e he
    rcases List.mem_append.mp he with hold | hlast
    · exact h.safe e hold
    · rw [List.mem_singleton.mp hlast]
      exact hsafe
  self := h.self
  active := by
    obtain ⟨e, he, hactive⟩ := h.active
    exact ⟨e, List.mem_append_left _ he, hactive⟩
  live := by
    intro e he
    rcases List.mem_append.mp he with hold | hlast
    · exact h.live e hold
    · obtain ⟨active, hactive, hid, -⟩ := h.active
      rw [List.mem_singleton.mp hlast]
      symm
      apply decide_eq_false
      intro heq
      have hmem : active.id ∈ v.ids := List.mem_map_of_mem hactive
      rw [hid, ← show id = v.activeId from heq] at hmem
      exact hnew hmem

theorem entry?_isNone {m : Manager W M S} (id : String) :
    (m.entry? id).isNone = true ↔ id ∉ m.view.ids := by
  unfold Manager.entry? View.ids Manager.view
  rw [Option.isNone_iff_eq_none, List.find?_eq_none, List.map_map, List.mem_map]
  constructor
  · rintro hnone ⟨entry, hentry, hid⟩
    exact hnone entry hentry (decide_eq_true hid)
  · intro hnone entry hentry hid
    exact hnone ⟨entry, hentry, of_decide_eq_true hid⟩

theorem view_add (m : Manager W M S) (id : String) (name : Option String) (state : S)
    (restored seedStart : Bool) :
    (m.add ⟨id, name, state, restored, seedStart, none⟩).view = m.view.add id name := by
  unfold Manager.view Manager.add View.add
  rw [List.map_append]
  rfl

/-- A call that adds an entry with a new id, or none. -/
def Added (v : View) (id : String) (m : Manager W M S) : Prop :=
  m.view = v ∨ ∃ name, id ∉ v.ids ∧ safeMapId id = true ∧ m.view = v.add id name

theorem ensures_createMap (id : String) (name : Option String) :
    Ensures (Viewed v) (createMap maps id name) (fun _ => Added v id) (Added v id) := by
  apply ensures_require_bind _ (fun _ _ hm => .inl hm)
  intro hsafe
  apply ensures_get
  intro m hm
  apply ensures_require_bind
  · intro hnone
    have hnew : id ∉ v.ids := hm ▸ (entry?_isNone id).mp hnone
    have hadded : ∀ m' : Manager W M S, Viewed (v.add id (some (name.getD id))) m' → Added v id m' :=
      fun m' hm' => .inr ⟨_, hnew, hsafe, hm'⟩
    apply ensures_modify_bind (Viewed (v.add id (some (name.getD id))))
    · rintro s rfl
      rw [Viewed, view_add, hm]
    · apply ensures_bind ((ensures_outside _).weaken (fun _ h => h) (fun _ _ h => h) hadded)
      intro _
      exact ensures_pure hadded
  · rintro _ _ rfl
    exact .inl hm

def View.rename (v : View) (id : String) (name : Option String) : View :=
  { v with
    entries := v.entries.map fun e => if e.id = id then { e with name := name } else e
    activeMapName := if id = v.activeId then name else v.activeMapName }

theorem View.Consistent.rename (h : v.Consistent) (id : String) (name : Option String) :
    (v.rename id name).Consistent where
  ids := by
    change ((v.entries.map _).map Shape.id).Nodup
    have hsame : (v.entries.map fun e => if e.id = id then { e with name := name } else e).map
        Shape.id = v.entries.map Shape.id := by
      rw [List.map_map]
      apply List.map_congr_left
      intro e _
      by_cases he : e.id = id <;> simp [he]
    rw [hsame]
    exact h.ids
  safe := by
    intro e he
    obtain ⟨before, hbefore, rfl⟩ := List.mem_map.mp he
    split_ifs <;> exact h.safe before hbefore
  self := h.self
  active := by
    obtain ⟨e, he, hid, hname⟩ := h.active
    refine ⟨_, List.mem_map_of_mem he, ?_, ?_⟩
    · by_cases hrenamed : e.id = id
      · rw [if_pos hrenamed]
        exact hid
      · rw [if_neg hrenamed]
        exact hid
    · change (if id = v.activeId then name else v.activeMapName) = _
      by_cases hrenamed : e.id = id
      · rw [if_pos hrenamed, if_pos (hrenamed.symm.trans hid)]
      · rw [if_neg hrenamed, if_neg (fun heq => hrenamed (hid.trans heq.symm))]
        exact hname
  live := by
    intro e he
    obtain ⟨before, hbefore, rfl⟩ := List.mem_map.mp he
    split_ifs <;> exact h.live before hbefore

def Renamed (v : View) (id : String) (name : Option String) (m : Manager W M S) : Prop :=
  m.view = v ∨ m.view = v.rename id name

theorem ensures_renameMap (id : String) (name : Option String) :
    Ensures (Viewed v) (renameMap maps id name) (fun _ => Renamed v id name) (Renamed v id name) := by
  apply ensures_get
  intro m hm
  have hactiveId : m.activeId = v.activeId := congrArg View.activeId hm
  cases m.entry? id with
  | none =>
    apply ensures_raise
    rintro _ rfl
    exact .inl hm
  | some entry =>
    let entries := v.entries.map fun e => if e.id = id then { e with name := name } else e
    apply ensures_modify_bind (Viewed { v with entries := entries })
    · rintro s rfl
      rw [Viewed, s.view_update id (fun entry => { entry with name := name })
        (fun e => { e with name := name }) (fun _ => rfl), hm]
    have hnamed : Ensures (Viewed { v with entries := entries }) (renameInstantiated maps entry name)
        (fun _ => Viewed { v with entries := entries }) (Renamed v id name) := by
      unfold renameInstantiated
      cases entry.map with
      | none => exact ensures_pure fun _ h => h
      | some map => exact ensures_modify fun _ h => h
    apply ensures_bind hnamed
    intro _
    apply ensures_modify_bind (Viewed (v.rename id name))
    · intro s hs
      have hactive : s.activeId = v.activeId := congrArg View.activeId hs
      unfold View.rename
      by_cases hid : id = v.activeId
      · rw [if_pos hid, if_pos (hid.trans hactive.symm)]
        exact congrArg (fun view : View => { view with activeMapName := name }) hs
      · rw [if_neg hid, if_neg (fun heq => hid (heq.trans hactive))]
        exact hs
    · exact (ensures_outside _).weaken (fun _ h => h) (fun _ _ h => .inr h) fun _ h => .inr h

def View.delete (v : View) (id : String) : View :=
  { v with entries := v.entries.filter fun e => decide (e.id ≠ id) }

theorem View.Consistent.delete (h : v.Consistent) {id : String} (hid : id ≠ v.activeId) :
    (v.delete id).Consistent where
  ids := h.ids.sublist ((List.filter_sublist).map _)
  safe := fun e he => h.safe e (List.mem_of_mem_filter he)
  self := h.self
  active := by
    obtain ⟨e, he, hactive, hname⟩ := h.active
    refine ⟨e, List.mem_filter.mpr ⟨he, ?_⟩, hactive, hname⟩
    apply decide_eq_true
    rintro rfl
    exact hid hactive
  live := fun e he => h.live e (List.mem_of_mem_filter he)

def Deleted (v : View) (id : String) (m : Manager W M S) : Prop :=
  m.view = v ∨ (id ≠ v.activeId ∧ m.view = v.delete id)

theorem ensures_deleteMap (hv : v.Consistent) (id : String) :
    Ensures (Viewed v) (deleteMap maps id) (fun _ => Deleted v id) (Deleted v id) := by
  have hkept : ∀ m : Manager W M S, Viewed v m → ∀ m', m' = m → Deleted v id m' := by
    rintro m hm _ rfl
    exact .inl hm
  apply ensures_get
  intro m hm
  apply ensures_require_bind _ (fun _ => hkept m hm)
  intro hactive
  rw [show m.activeId = v.activeId from congrArg View.activeId hm] at hactive ⊢
  have hdead : v.setLive id false = v := by
    apply View.setLive_eq_self
    intro e he heid
    rw [hv.live e he]
    exact decide_eq_false fun heq => hactive (heid.symm.trans heq)
  cases hfind : m.entry? id with
  | none => exact ensures_raise (hkept m hm)
  | some entry =>
    have hid : entry.id = id := by
      unfold Manager.entry? at hfind
      have hfound := List.find?_some hfind
      exact of_decide_eq_true hfound
    apply ensures_require_bind _ (fun _ => hkept m hm)
    intro _
    have hdropped : Ensures (Viewed v) (dropInstantiated maps entry) (fun _ => Viewed v)
        (Deleted v id) := by
      unfold dropInstantiated
      cases entry.map with
      | none => exact ensures_pure fun _ h => h
      | some map =>
        apply ensures_bind ((ensures_outside _).weaken (fun _ h => h) (fun _ _ h => h) fun _ h => .inl h)
        intro _
        have hset := ensures_setMap (v := v) (E := Deleted v id) (M := M) (W := W) (S := S) id none
        rw [Option.isSome_none, hdead] at hset
        rw [hid]
        exact hset
    refine ensures_bind (hdropped.weaken ?_ (fun _ _ h => h) fun _ h => h) ?_
    · rintro _ rfl
      exact hm
    intro _
    have hdeleted : ∀ m' : Manager W M S, Viewed (v.delete id) m' → Deleted v id m' :=
      fun m' hm' => .inr ⟨hactive, hm'⟩
    apply ensures_modify_bind (Viewed (v.delete id))
    · intro s hs
      have hentries : s.entries.map Entry.shape = v.entries := congrArg View.entries hs
      rw [← show s.view = v from hs]
      unfold Viewed View.delete Manager.view
      rw [List.filter_map]
      rfl
    apply ensures_bind ((ensures_outside _).weaken (fun _ h => h) (fun _ _ h => h) hdeleted)
    intro _
    exact (ensures_outside _).weaken (fun _ h => h) (fun _ => hdeleted) hdeleted

/-! ## Capturing -/

theorem ensures_snapshot (l : List (Entry M S)) :
    Ensures (Viewed v : Manager W M S → Prop) (snapshotReferenceMaps maps l) (fun _ => Viewed v)
      (Viewed v) := by
  induction l with
  | nil => exact ensures_pure fun _ h => h
  | cons entry rest ih =>
    have hstate : Ensures (Viewed v : Manager W M S → Prop) (snapshotState maps entry)
        (fun _ => Viewed v) (Viewed v) := by
      unfold snapshotState
      cases entry.map with
      | none => exact ensures_pure fun _ h => h
      | some map => exact ensures_outside _
    apply ensures_bind hstate
    intro state
    apply ensures_bind ih
    intro records
    exact ensures_pure fun _ h => h

theorem ensures_captureState (hv : v.Consistent) :
    Ensures (Viewed v) (captureState maps) (fun _ => Viewed v) (Viewed v) := by
  apply ensures_get
  intro m hm
  have hloop : Ensures (Viewed v) (forEach (m.entries.filter fun entry => decide (entry.id ≠ m.activeId))
      (hydrateInactiveEntryForCapture maps)) (fun _ => Viewed v) (Viewed v) := by
    apply ensures_forEach_inv
    intro entry hentry
    apply ensures_hydrateInactive maps
    intro e he hid
    rw [hv.live e he]
    apply decide_eq_false
    intro hactive
    apply of_decide_eq_true (List.mem_filter.mp hentry).2
    rw [← hid, hactive]
    exact (congrArg View.activeId hm).symm
  refine ensures_bind (hloop.weaken ?_ (fun _ _ h => h) fun _ h => h) ?_
  · rintro _ rfl
    exact hm
  intro _
  apply ensures_get_kept
  intro m _
  exact ensures_snapshot maps m.entries

/-! ## An unused id -/

theorem mapIdAt_injective : Function.Injective mapIdAt := by
  intro m n h
  apply Nat.repr_injective
  exact (String.append_right_inj "map-").mp h

theorem freeMapId_unused (m : Manager W M S) : mapIdAt (freeMapId m).nextId ∉ m.view.ids := by
  have hlength : m.view.ids.length = m.entries.length := by
    simp [View.ids, Manager.view]
  have hfree := firstFree_free (fun n => (m.entry? (mapIdAt n)).isSome) m.view.ids
    mapIdAt_injective (fun n hn => by
      by_contra hnot
      rw [← entry?_isNone, Option.isNone_iff_eq_none] at hnot
      rw [hnot] at hn
      cases hn) m.nextId
  rw [hlength] at hfree
  rw [← entry?_isNone, Option.isNone_iff_eq_none]
  exact Option.not_isSome_iff_eq_none.mp (Bool.eq_false_iff.mp hfree)

/-- A call that adds an entry with an unused id and may switch to it. -/
def AddedAndSwitched (v : View) (m : Manager W M S) : Prop :=
  m.view = v ∨ ∃ id name, id ∉ v.ids ∧ safeMapId id = true ∧ Switched (v.add id name) id m

theorem ensures_createAndSwitchMap (hv : v.Consistent) (name : Option String) (state : S) :
    Ensures (Viewed v) (createAndSwitchMap maps name state) (fun _ => AddedAndSwitched v)
      (AddedAndSwitched v) := by
  apply ensures_modify_bind (fun m : Manager W M S => Viewed v m ∧ mapIdAt m.nextId ∉ v.ids)
  · intro m hm
    rw [← show m.view = v from hm]
    exact ⟨rfl, freeMapId_unused m⟩
  apply ensures_get
  rintro m ⟨hm, hnew⟩
  have hkept : ∀ m' : Manager W M S, m' = m → AddedAndSwitched v m' := by
    rintro _ rfl
    exact .inl hm
  apply ensures_require_bind _ (fun _ => hkept)
  intro hsafe
  let added := v.add (mapIdAt m.nextId) (some (name.getD (mapIdAt m.nextId)))
  have hadded : added.Consistent := hv.add _ hsafe hnew
  have hswitched : ∀ m' : Manager W M S, Switched added (mapIdAt m.nextId) m' →
      AddedAndSwitched v m' := fun m' hm' => .inr ⟨_, _, hnew, hsafe, hm'⟩
  apply ensures_modify_bind (Viewed added)
  · rintro s rfl
    rw [Viewed, view_add, show s.view = v from hm]
  apply ensures_bind ((ensures_outside _).weaken (fun _ h => h) (fun _ _ h => h)
    fun m' hm' => hswitched m' (.inl hm'))
  intro _
  apply ensures_bind ((ensures_switchMap maps hadded _).weaken (fun _ h => h) (fun _ _ h => h) hswitched)
  intro _
  apply ensures_get_kept
  intro _ _
  exact ensures_pure hswitched

/-! ## Runs -/

/-- What a call promises, whether it answers or raises. -/
def Promised (maps : Maps W M S) (m : Manager W M S) (call : Call S) : Prop :=
  match call with
  | .create id _ => Added m.view id (step maps m call)
  | .createAndSwitch _ _ => AddedAndSwitched m.view (step maps m call)
  | .switch targetId => Switched m.view targetId (step maps m call)
  | .rename id name => Renamed m.view id name (step maps m call)
  | .delete id => Deleted m.view id (step maps m call)
  | .capture => (step maps m call).view = m.view

theorem promised {m : Manager W M S} (hm : m.view.Consistent) (call : Call S) :
    Promised maps m call := by
  cases call with
  | create id name =>
    exact (ensures_createMap maps id name).left (fun _ _ h => h) (fun _ h => h) rfl
  | createAndSwitch name state =>
    exact (ensures_createAndSwitchMap maps hm name state).left (fun _ _ h => h) (fun _ h => h) rfl
  | switch targetId =>
    exact (ensures_switchMap maps hm targetId).left (fun _ _ h => h) (fun _ h => h) rfl
  | rename id name =>
    exact (ensures_renameMap maps id name).left (fun _ _ h => h) (fun _ h => h) rfl
  | delete id =>
    exact (ensures_deleteMap maps hm id).left (fun _ _ h => h) (fun _ h => h) rfl
  | capture =>
    exact (ensures_captureState maps hm).left (fun _ _ h => h) (fun _ h => h) rfl

/-- One call. -/
theorem step_consistent {m : Manager W M S} (hm : m.view.Consistent) (call : Call S) :
    (step maps m call).view.Consistent := by
  have hcall := promised maps hm call
  cases call with
  | create id name =>
    rcases hcall with hsame | ⟨name, hnew, hsafe, hadded⟩
    · exact hsame ▸ hm
    · exact hadded ▸ hm.add name hsafe hnew
  | createAndSwitch name state =>
    rcases hcall with hsame | ⟨id, name, hnew, hsafe, hswitched⟩
    · exact hsame ▸ hm
    · exact hswitched.consistent (hm.add name hsafe hnew)
  | switch targetId => exact hcall.consistent hm
  | rename id name =>
    rcases hcall with hsame | hrenamed
    · exact hsame ▸ hm
    · exact hrenamed ▸ hm.rename id name
  | delete id =>
    rcases hcall with hsame | ⟨hid, hdeleted⟩
    · exact hsame ▸ hm
    · exact hdeleted ▸ hm.delete hid
  | capture => exact hcall ▸ hm

/-- The view of a manager that has not built its active map yet. -/
theorem view_manager (parsed : ParsedState S) (world : W) :
    (parsed.manager world : Manager W M S).view.entries =
      parsed.records.map fun record => ⟨record.1, record.2.1, false⟩ := by
  unfold ParsedState.manager ParsedState.entries Manager.view
  dsimp only
  rw [List.map_map]
  rfl

theorem lookup_of_mem {records : List (String × Option String × S)}
    (hnodup : (records.map Prod.fst).Nodup) {record : String × Option String × S}
    (hrecord : record ∈ records) : records.lookup record.1 = some record.2 := by
  induction records with
  | nil => cases hrecord
  | cons first rest ih =>
    rw [List.map_cons, List.nodup_cons] at hnodup
    rcases List.mem_cons.mp hrecord with rfl | hrest
    · exact List.lookup_cons_self
    · have hne : (record.1 == first.1) = false := by
        apply beq_false_of_ne
        intro hsame
        exact hnodup.1 (hsame ▸ List.mem_map_of_mem hrest)
      rw [List.lookup_cons, hne]
      exact ih hnodup.2 hrest

theorem newManager_consistent {parsed : ParsedState S} {world : W} {m : Manager W M S}
    (h : newManager maps parsed world = .ok m) : m.view.Consistent := by
  unfold newManager at h
  cases hrefusal : parsed.refusal with
  | some message =>
    rw [hrefusal] at h
    cases h
  | none =>
    rw [hrefusal] at h
    unfold ParsedState.refusal at hrefusal
    split_ifs at hrefusal with hactive hsafe hnodup hmem
    let v := (parsed.manager world : Manager W M S).view
    have hentries : v.entries = parsed.records.map fun record => ⟨record.1, record.2.1, false⟩ :=
      view_manager parsed world
    have hids : v.entries.map Shape.id = parsed.records.map Prod.fst := by
      rw [hentries, List.map_map]
      rfl
    have hbuild := ensures_buildActiveMap maps (v := v) parsed.activeMapId (by
      intro e he _
      rw [hentries] at he
      obtain ⟨record, _, rfl⟩ := List.mem_map.mp he
      rfl)
    have hview : m.view = v.setLive parsed.activeMapId true := by
      cases hrun : buildActiveMap maps parsed.activeMapId (parsed.manager world) with
      | mk result built =>
        cases result with
        | error message =>
          rw [hrun] at h
          cases h
        | ok value =>
          rw [hrun] at h
          obtain rfl := Except.ok.inj h
          exact hbuild.ok rfl hrun
    obtain ⟨record, hrecord, hid⟩ := List.mem_map.mp hmem
    rw [hview]
    refine ⟨?_, ?_, rfl, ?_, ?_⟩
    · rw [View.setLive_ids, hids]
      exact hnodup
    · intro e he
      obtain ⟨before, hbefore, rfl⟩ := View.mem_setLive.mp he
      have hrecords := List.all_eq_true.mp (Bool.eq_true_of_not_eq_false hsafe)
      rw [hentries] at hbefore
      obtain ⟨record, hrecord, rfl⟩ := List.mem_map.mp hbefore
      split_ifs <;> exact hrecords record hrecord
    · refine ⟨⟨record.1, record.2.1, true⟩, ?_, hid, ?_⟩
      · apply View.mem_setLive.mpr
        refine ⟨⟨record.1, record.2.1, false⟩, ?_, (if_pos hid).symm⟩
        rw [hentries]
        exact List.mem_map_of_mem hrecord
      · change (parsed.records.lookup parsed.activeMapId).bind Prod.fst = record.2.1
        rw [← hid, lookup_of_mem hnodup hrecord]
        rfl
    · intro e he
      change e.live = decide (e.id = parsed.activeMapId)
      obtain ⟨before, hbefore, rfl⟩ := View.mem_setLive.mp he
      rw [hentries] at hbefore
      obtain ⟨record, hrecord, rfl⟩ := List.mem_map.mp hbefore
      by_cases hactiveId : record.1 = parsed.activeMapId
      · simp [hactiveId]
      · simp [hactiveId]

/-- Maps numbered by the world, and a listener that refuses to go to one of them. -/
def refusingMaps : Maps Nat Nat Unit where
  newMap := fun _ _ world => (.ok world, world + 1)
  restoreState := fun _ _ world => (.ok (), world)
  pruneHydratedMap := fun _ written => (.ok (), written)
  seedStart := fun _ written => (.ok (), written)
  captureState := fun _ world => (.ok (), world)
  drop := fun _ world => (.ok (), world)
  setMapName := fun _ _ world => world
  deleteMapMetadata := fun _ world => (.ok (), world)
  mapsWillChange := fun _ target world =>
    (if target = "two" then .error "not there" else .ok (), world)
  mapsChanged := fun _ world => (.ok (), world)
  emptyState := ()
  restorable := fun _ => true

end Space2.GraphMaps
