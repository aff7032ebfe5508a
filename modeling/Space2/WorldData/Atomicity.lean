import Space2.WorldData.Edits
import Space2.WorldData.Settling

/-!
# Edits that raise

An edit that raises for its updater or for the value it leaves should not be seen
in the scene state. The light edits store the record before the lights are
normalised, so they keep to this exactly when the normaliser takes the record.
-/
namespace Space2.WorldData
open Base

variable {N V : Type} {world : World N V} {s : SceneState N V} {typeKey lightId : String}
  {updater : Record N V → Except String (Record N V)}

/-! ## The statement -/

def Raised.byValue : Raised → Bool
  | .refused _ => false
  | .updater _ => true
  | .rejected _ => true

/-- At most one member is another, and it is one of those with `P`. -/
def ReplacesOne {α : Type} (P : α → Prop) (old new : List α) : Prop :=
  ∃ front gone come back, old = front ++ gone ++ back ∧ new = front ++ come ++ back ∧
    gone.length ≤ 1 ∧ come.length ≤ 1 ∧ ∀ a ∈ gone ++ come, P a

/-- Besides the list under the key the lights are as they were. -/
def KeepsOtherLights (typeKey : String) (R : List (Record N V) → List (Record N V) → Prop)
    (lights lights' : Lights N V) : Prop :=
  (typeKey ≠ "ambient" → lights'.ambient = lights.ambient) ∧
    (∀ key, key ≠ typeKey → lights'.items key = lights.items key) ∧
    R (lights.items typeKey) (lights'.items typeKey) ∧ lights'.unsupported = lights.unsupported

/-- What an edit has to leave as it was. -/
def Edit.KeepsOthers (edit : Edit N V) (s s' : SceneState N V) : Prop :=
  match edit with
  | .updateLightRecord typeKey lightId _ | .removeLight typeKey lightId =>
    KeepsOtherLights typeKey (ReplacesOne fun light => light.hasId lightId = true) s.lights s'.lights ∧
      s'.skybox = s.skybox ∧ s'.background = s.background ∧ s'.terrains = s.terrains
  | .addLight typeKey =>
    KeepsOtherLights typeKey (fun old new => old <+: new) s.lights s'.lights ∧
      s'.skybox = s.skybox ∧ s'.background = s.background ∧ s'.terrains = s.terrains
  | .updateSkybox _ =>
    s'.lights = s.lights ∧ s'.background = s.background ∧ s'.terrains = s.terrains
  | .updateBackground _ => s'.lights = s.lights ∧ s'.skybox = s.skybox ∧ s'.terrains = s.terrains
  | .updateTerrainRecord terrainId _ =>
    s'.lights = s.lights ∧ s'.skybox = s.skybox ∧ s'.background = s.background ∧
      ReplacesOne (fun record => record.hasId terrainId = true) s.terrains s'.terrains

def Edit.Atomic (world : World N V) (edit : Edit N V) (s : SceneState N V) : Prop :=
  (∀ raised, (edit.apply world s).1 = some raised → raised.byValue = true →
      (edit.apply world s).2 = s) ∧
    ((edit.apply world s).1 = none → edit.KeepsOthers s (edit.apply world s).2)

/-- The edit stores a light that the normaliser of its kind rejects. -/
def Edit.StoresRejected (world : World N V) (edit : Edit N V) (s : SceneState N V) : Prop :=
  match edit with
  | .updateLightRecord typeKey lightId updater =>
    if typeKey = "ambient" then
      ∃ next message, updater s.lights.ambient = .ok next ∧
        judgeAmbient world.arithmetic (next.set "id" (.string "ambient")) = .error message
    else
      ∃ idx current next message, findRecord lightId (s.lights.items typeKey) = some (idx, current) ∧
        updater current = .ok next ∧
        judge world.arithmetic typeKey (next.set "id" (.string lightId)) (idx + 1) = .error message
  | .addLight typeKey =>
    ∃ spec record message, typeSpec typeKey = some spec ∧ typeKey ≠ "ambient" ∧
      (s.lights.items typeKey).length < spec.maxCount ∧ newLight world typeKey s.lights = .ok record ∧
      judge world.arithmetic typeKey record ((s.lights.items typeKey).length + 1) = .error message
  | _ => False

/-! ## Storing and normalising -/

theorem ReplacesOne.refl {α : Type} {P : α → Prop} (l : List α) : ReplacesOne P l l :=
  ⟨l, [], [], [], by simp, by simp, Nat.zero_le 1, Nat.zero_le 1, by simp⟩

theorem findRecord_eq_some {id : String} {items : List (Record N V)} {idx : Nat}
    {current : Record N V} (h : findRecord id items = some (idx, current)) :
    ∃ front back, items = front ++ current :: back ∧ idx = front.length ∧ current.hasId id = true := by
  simp only [findRecord, Option.bind_eq_bind, Option.bind_eq_some_iff, Option.pure_def,
    Option.some.injEq, Prod.mk.injEq] at h
  obtain ⟨idx, hfind, found, hget, rfl, rfl⟩ := h
  obtain ⟨hlt, hid, -⟩ := List.findIdx?_eq_some_iff_getElem.mp hfind
  obtain ⟨_, rfl⟩ := List.getElem?_eq_some_iff.mp hget
  refine ⟨items.take idx, items.drop (idx + 1), ?_, (List.length_take_of_le hlt.le).symm, hid⟩
  rw [← List.drop_eq_getElem_cons hlt, List.take_append_drop]

theorem persist_normalised (h : Normalised world.arithmetic s.lights) :
    persistLightState world s = (.ok s.lights, s) := by
  unfold persistLightState
  rw [show normalizeCompleteState world.arithmetic s.lights = .ok s.lights from h]

theorem persist_ok {lights : Lights N V}
    (h : normalizeCompleteState world.arithmetic s.lights = .ok lights) :
    persistLightState world s = (.ok lights, { s with lights := lights }) := by
  unfold persistLightState
  rw [h]

/-- What the normaliser rejects stays stored. -/
theorem persist_error (h : ∀ lights, normalizeCompleteState world.arithmetic s.lights ≠ .ok lights) :
    ∃ message, persistLightState world s = (.error (.rejected message), s) := by
  unfold persistLightState
  cases hlights : normalizeCompleteState world.arithmetic s.lights with
  | error message => exact ⟨message, rfl⟩
  | ok lights => exact absurd hlights (h lights)

section Lists
variable {front gone back : List (Record N V)} (h : Normalised world.arithmetic s.lights)
  (hkind : typeKey = "directional" ∨ typeKey = "point" ∨ typeKey = "spot")
  (hitems : s.lights.items typeKey = front ++ gone ++ back)
include h hkind hitems

/-- A light stored in a list is kept if its judgement says so. -/
theorem persist_stored {light : Record N V} {found : Option (Record N V)}
    (hwithin : Within typeKey (front ++ light :: back).length)
    (hjudge : judge world.arithmetic typeKey light (front.length + 1) = .ok found) :
    persistLightState world { s with lights := s.lights.setItems typeKey (front ++ light :: back) } =
      (.ok (s.lights.setItems typeKey (front ++ found.toList ++ back)),
        { s with lights := s.lights.setItems typeKey (front ++ found.toList ++ back) }) := by
  have hsettled := h.settled typeKey
  rw [hitems, List.forall_mem_append, List.forall_mem_append] at hsettled
  apply persist_ok
  rw [h.with_items hkind]
  refine ⟨_, ?_, hwithin, rfl⟩
  rw [sweep_middle hsettled.1.1 hsettled.2, Nat.add_comm, hjudge]
  rfl

theorem persist_stored_error {light : Record N V} {message : String}
    (hjudge : judge world.arithmetic typeKey light (front.length + 1) = .error message) :
    ∃ message', persistLightState world
        { s with lights := s.lights.setItems typeKey (front ++ light :: back) } =
      (.error (.rejected message'),
        { s with lights := s.lights.setItems typeKey (front ++ light :: back) }) := by
  have hsettled := h.settled typeKey
  rw [hitems, List.forall_mem_append, List.forall_mem_append] at hsettled
  apply persist_error
  intro lights hlights
  obtain ⟨kept, hsweep, -⟩ := (h.with_items hkind).mp hlights
  rw [sweep_middle hsettled.1.1 hsettled.2, Nat.add_comm, hjudge] at hsweep
  cases hsweep

theorem persist_removed :
    persistLightState world { s with lights := s.lights.setItems typeKey (front ++ back) } =
      (.ok (s.lights.setItems typeKey (front ++ back)),
        { s with lights := s.lights.setItems typeKey (front ++ back) }) := by
  have hsettled := h.settled typeKey
  have hwithin := (h.rewrites typeKey).2
  rw [hitems, List.forall_mem_append, List.forall_mem_append] at hsettled
  rw [hitems] at hwithin
  apply persist_ok
  rw [h.with_items hkind]
  refine ⟨_, sweep_settled (List.forall_mem_append.mpr ⟨hsettled.1.1, hsettled.2⟩) 1, ?_, rfl⟩
  intro spec hspec
  have hle := hwithin spec hspec
  simp only [List.length_append] at hle ⊢
  omega

omit hitems in
/-- A light the normaliser rejects is not the one it stands for. -/
theorem setItems_ne {light : Record N V} {message : String}
    (hjudge : judge world.arithmetic typeKey light (front.length + 1) = .error message) :
    s.lights.setItems typeKey (front ++ light :: back) ≠ s.lights := by
  intro hsame
  have hlist := congrArg (Lights.items · typeKey) hsame
  simp only [items_setItems hkind] at hlist
  have hmem : light ∈ s.lights.items typeKey := by
    rw [← hlist]
    exact List.mem_append_right _ List.mem_cons_self
  rw [h.settled typeKey light hmem] at hjudge
  cases hjudge

omit h in
theorem keepsOtherLights {come : List (Record N V)} {P : Record N V → Prop} (hgone : gone.length ≤ 1)
    (hcome : come.length ≤ 1) (hP : ∀ light ∈ gone ++ come, P light) :
    KeepsOtherLights typeKey (ReplacesOne P) s.lights
      (s.lights.setItems typeKey (front ++ come ++ back)) := by
  refine ⟨fun _ => setItems_ambient _, fun key hkey => items_setItems_ne _ hkey, ?_, ?_⟩
  · rw [items_setItems hkind]
    exact ⟨front, gone, come, back, hitems, rfl, hgone, hcome, hP⟩
  · rcases hkind with rfl | rfl | rfl <;> rfl

end Lists

/-! ## Outcomes -/

section Outcomes
variable {edit : Edit N V} {s' : SceneState N V} {message : String} {raised : Raised}

theorem atomic_of_same (h : edit.apply world s = (some raised, s)) : edit.Atomic world s := by
  unfold Edit.Atomic
  rw [h]
  exact ⟨fun _ _ _ => rfl, fun hnone => absurd hnone (Option.some_ne_none raised)⟩

theorem atomic_of_refused (h : edit.apply world s = (some (.refused message), s')) :
    edit.Atomic world s := by
  unfold Edit.Atomic
  rw [h]
  refine ⟨fun raised hraised hvalue => ?_, fun hnone => absurd hnone (Option.some_ne_none _)⟩
  rw [← Option.some.inj hraised] at hvalue
  cases hvalue

theorem atomic_of_kept (h : edit.apply world s = (none, s')) (hkept : edit.KeepsOthers s s') :
    edit.Atomic world s := by
  unfold Edit.Atomic
  rw [h]
  refine ⟨fun raised hraised _ => ?_, fun _ => hkept⟩
  cases hraised

theorem not_atomic_of_stored (h : edit.apply world s = (some (.rejected message), s')) (hne : s' ≠ s) :
    ¬ edit.Atomic world s := by
  rintro ⟨hraised, -⟩
  rw [h] at hraised
  exact hne (hraised _ rfl rfl)

end Outcomes

section Stored
variable {edit : Edit N V} {light : Record N V}

theorem exists_ok_iff {ε α : Type} {x : Except ε α} : (∃ a, x = .ok a) ↔ ¬ ∃ e, x = .error e := by
  cases x <;> simp

/-- What is answered does not matter to the scene state. -/
theorem outcome_answer {α β : Type} (run : Except Raised α × SceneState N V) (f : α → β) :
    Edit.apply.outcome (answer run f) = Edit.apply.outcome run := by
  obtain ⟨result, s'⟩ := run
  cases result <;> rfl

theorem ambient_atomic_iff (h : Normalised world.arithmetic s.lights)
    (hrun : edit.apply world s = Edit.apply.outcome
      (persistLightState world { s with lights := { s.lights with ambient := light } }))
    (hkept : ∀ ambient, edit.KeepsOthers s { s with lights := { s.lights with ambient } }) :
    edit.Atomic world s ↔ ∃ ambient, judgeAmbient world.arithmetic light = .ok ambient := by
  cases hjudge : judgeAmbient world.arithmetic light with
  | error message =>
    obtain ⟨message', hpersist⟩ := @persist_error _ _ world
      { s with lights := { s.lights with ambient := light } } (by
        intro lights hlights
        obtain ⟨ambient, hambient, -⟩ := h.with_ambient.mp hlights
        rw [hjudge] at hambient
        cases hambient)
    rw [hpersist] at hrun
    refine iff_of_false (not_atomic_of_stored hrun fun hsame => ?_) ?_
    · have hstored : light = s.lights.ambient := congrArg (fun s => s.lights.ambient) hsame
      rw [hstored, h.ambient] at hjudge
      cases hjudge
    · rintro ⟨ambient, hambient⟩
      cases hambient
  | ok ambient =>
    have hpersist := @persist_ok _ _ world { s with lights := { s.lights with ambient := light } } _
      (h.with_ambient.mpr ⟨ambient, hjudge, rfl⟩)
    rw [hpersist] at hrun
    exact iff_of_true (atomic_of_kept hrun (hkept ambient)) ⟨ambient, rfl⟩

theorem listed_atomic_iff {front gone back : List (Record N V)}
    (h : Normalised world.arithmetic s.lights)
    (hkind : typeKey = "directional" ∨ typeKey = "point" ∨ typeKey = "spot")
    (hitems : s.lights.items typeKey = front ++ gone ++ back)
    (hwithin : Within typeKey (front ++ light :: back).length)
    (hrun : edit.apply world s = Edit.apply.outcome
      (persistLightState world { s with lights := s.lights.setItems typeKey (front ++ light :: back) }))
    (hkept : ∀ found, judge world.arithmetic typeKey light (front.length + 1) = .ok found →
      edit.KeepsOthers s { s with lights := s.lights.setItems typeKey (front ++ found.toList ++ back) }) :
    edit.Atomic world s ↔
      ∃ found, judge world.arithmetic typeKey light (front.length + 1) = .ok found := by
  cases hjudge : judge world.arithmetic typeKey light (front.length + 1) with
  | error message =>
    obtain ⟨message', hpersist⟩ := persist_stored_error h hkind hitems hjudge
    rw [hpersist] at hrun
    refine iff_of_false (not_atomic_of_stored hrun fun hsame => ?_) ?_
    · exact setItems_ne h hkind hjudge (congrArg SceneState.lights hsame)
    · rintro ⟨found, hfound⟩
      cases hfound
  | ok found =>
    rw [persist_stored h hkind hitems hwithin hjudge] at hrun
    exact iff_of_true (atomic_of_kept hrun (hkept found hjudge)) ⟨found, rfl⟩

end Stored

/-! ## The edits -/

section Light
variable (h : Normalised world.arithmetic s.lights)
include h

theorem updateAmbient_atomic_iff :
    (Edit.updateLightRecord "ambient" lightId updater).Atomic world s ↔
      ¬ (Edit.updateLightRecord "ambient" lightId updater).StoresRejected world s := by
  have hrun : (Edit.updateLightRecord "ambient" lightId updater).apply world s =
      Edit.apply.outcome (updateLightRecord world "ambient" lightId updater s) := rfl
  unfold updateLightRecord at hrun
  simp only [persist_normalised h, if_true] at hrun
  have hrejected : (Edit.updateLightRecord "ambient" lightId updater).StoresRejected world s ↔
      ∃ next message, updater s.lights.ambient = .ok next ∧
        judgeAmbient world.arithmetic (next.set "id" (.string "ambient")) = .error message := Iff.rfl
  cases hupdater : updater s.lights.ambient with
  | error message =>
    simp only [hupdater] at hrun
    exact iff_of_true (atomic_of_same hrun) (by simp [hrejected, hupdater])
  | ok next =>
    simp only [hupdater, outcome_answer] at hrun
    rw [ambient_atomic_iff h hrun, exists_ok_iff, hrejected]
    · simp [hupdater]
    · intro ambient
      exact ⟨⟨fun hne => absurd rfl hne, fun _ _ => rfl, ReplacesOne.refl _, rfl⟩, rfl, rfl, rfl⟩

theorem updateListed_atomic_iff (hambient : typeKey ≠ "ambient") :
    (Edit.updateLightRecord typeKey lightId updater).Atomic world s ↔
      ¬ (Edit.updateLightRecord typeKey lightId updater).StoresRejected world s := by
  have hrun : (Edit.updateLightRecord typeKey lightId updater).apply world s =
      Edit.apply.outcome (updateLightRecord world typeKey lightId updater s) := rfl
  unfold updateLightRecord at hrun
  simp only [persist_normalised h, if_neg hambient] at hrun
  have hrejected : (Edit.updateLightRecord typeKey lightId updater).StoresRejected world s ↔
      ∃ idx current next message, findRecord lightId (s.lights.items typeKey) = some (idx, current) ∧
        updater current = .ok next ∧
        judge world.arithmetic typeKey (next.set "id" (.string lightId)) (idx + 1) = .error message :=
    iff_of_eq (if_neg hambient)
  cases hfind : findRecord lightId (s.lights.items typeKey) with
  | none =>
    simp only [hfind] at hrun
    exact iff_of_true (atomic_of_refused hrun) (by simp [hrejected, hfind])
  | some entry =>
    obtain ⟨idx, current⟩ := entry
    obtain ⟨front, back, hitems, rfl, hid⟩ := findRecord_eq_some hfind
    have hkind : typeKey = "directional" ∨ typeKey = "point" ∨ typeKey = "spot" :=
      kind_of_items (by rw [hitems]; exact List.append_ne_nil_of_right_ne_nil _ (List.cons_ne_nil _ _))
    have hsplit : s.lights.items typeKey = front ++ [current] ++ back := by rw [hitems]; simp
    simp only [hfind] at hrun
    cases hupdater : updater current with
    | error message =>
      have hsame : s.lights.setItems typeKey (s.lights.items typeKey) = s.lights := by
        rcases hkind with rfl | rfl | rfl <;> rfl
      simp only [hupdater, hsame] at hrun
      refine iff_of_true (atomic_of_same hrun) ?_
      simp [hrejected, hfind, hupdater]
    | ok next =>
      have hset : (front ++ current :: back).set front.length (next.set "id" (.string lightId)) =
          front ++ next.set "id" (.string lightId) :: back := by simp
      simp only [hupdater, hitems, hset, outcome_answer] at hrun
      rw [listed_atomic_iff h hkind hsplit _ hrun, exists_ok_iff, hrejected]
      · simp [hfind, hupdater]
      · intro found hjudge
        refine ⟨keepsOtherLights hkind hsplit (Nat.le_refl 1) ?_ ?_, rfl, rfl, rfl⟩
        · cases found <;> simp
        · intro light hlight
          rcases List.mem_append.mp hlight with hgone | hcome
          · rwa [List.mem_singleton.mp hgone]
          · obtain rfl := Option.mem_toList.mp hcome
            exact judge_id (Record.get_set _ _ _) hjudge
      · have hcount := (h.rewrites typeKey).2
        rw [hitems] at hcount
        simpa only [List.length_append, List.length_cons] using hcount

theorem addLight_atomic_iff :
    (Edit.addLight typeKey).Atomic world s ↔ ¬ (Edit.addLight typeKey).StoresRejected world s := by
  have hrun : (Edit.addLight typeKey).apply world s =
      Edit.apply.outcome (addLight world typeKey s) := rfl
  unfold addLight at hrun
  simp only [persist_normalised h] at hrun
  have hrejected : (Edit.addLight typeKey).StoresRejected world s ↔
      ∃ spec record message, typeSpec typeKey = some spec ∧ typeKey ≠ "ambient" ∧
        (s.lights.items typeKey).length < spec.maxCount ∧
        newLight world typeKey s.lights = .ok record ∧
        judge world.arithmetic typeKey record ((s.lights.items typeKey).length + 1) = .error message :=
    Iff.rfl
  cases hspec : typeSpec typeKey with
  | none =>
    simp only [hspec] at hrun
    exact iff_of_true (atomic_of_refused hrun) (by simp [hrejected, hspec])
  | some spec =>
    simp only [hspec] at hrun
    by_cases hambient : typeKey = "ambient"
    · simp only [if_pos hambient] at hrun
      refine iff_of_true (atomic_of_refused hrun) ?_
      rintro ⟨_, _, _, -, hne, -⟩
      exact hne hambient
    by_cases hroom : (s.lights.items typeKey).length < spec.maxCount
    · simp only [if_neg hambient, if_pos hroom] at hrun
      cases hrecord : newLight world typeKey s.lights with
      | error message =>
        simp only [hrecord] at hrun
        exact iff_of_true (atomic_of_same hrun) (by simp [hrejected, hrecord])
      | ok record =>
        have hkind := kind_of_typeSpec hspec hambient
        have hsplit : s.lights.items typeKey = s.lights.items typeKey ++ [] ++ [] := by simp
        simp only [hrecord, outcome_answer] at hrun
        rw [listed_atomic_iff h hkind hsplit _ hrun, exists_ok_iff, hrejected]
        · simp [hspec, hambient, hroom, hrecord]
        · refine fun found _ => ⟨⟨fun _ => setItems_ambient _, fun key hkey => items_setItems_ne _ hkey,
            ?_, ?_⟩, rfl, rfl, rfl⟩
          · rw [items_setItems hkind, List.append_nil]
            exact List.prefix_append _ _
          · rcases hkind with rfl | rfl | rfl <;> rfl
        · intro spec' hspec'
          rw [← Option.some.inj (hspec.symm.trans hspec'), List.length_append]
          exact hroom
    · simp only [if_neg hambient, if_neg hroom] at hrun
      exact iff_of_true (atomic_of_refused hrun) (by simp [hrejected, hspec, hroom])

theorem removeLight_atomic : (Edit.removeLight typeKey lightId).Atomic world s := by
  have hrun : (Edit.removeLight typeKey lightId).apply world s =
      Edit.apply.outcome (removeLight world typeKey lightId s) := rfl
  unfold removeLight at hrun
  simp only [persist_normalised h] at hrun
  by_cases hambient : typeKey = "ambient"
  · simp only [if_pos hambient] at hrun
    exact atomic_of_refused hrun
  · simp only [if_neg hambient] at hrun
    cases hfind : findRecord lightId (s.lights.items typeKey) with
    | none =>
      simp only [hfind] at hrun
      exact atomic_of_refused hrun
    | some entry =>
      obtain ⟨idx, current⟩ := entry
      obtain ⟨front, back, hitems, rfl, hid⟩ := findRecord_eq_some hfind
      have hkind : typeKey = "directional" ∨ typeKey = "point" ∨ typeKey = "spot" :=
        kind_of_items (by rw [hitems]; exact List.append_ne_nil_of_right_ne_nil _ (List.cons_ne_nil _ _))
      have hsplit : s.lights.items typeKey = front ++ [current] ++ back := by rw [hitems]; simp
      have herase : (front ++ current :: back).eraseIdx front.length = front ++ back := by
        rw [List.eraseIdx_append_of_length_le (Nat.le_refl _), Nat.sub_self]
        rfl
      simp only [hfind] at hrun
      simp only [hitems, herase, persist_removed h hkind hsplit] at hrun
      have hkept := @keepsOtherLights _ _ _ _ _ _ _ hkind hsplit [] _ (Nat.le_refl 1) (Nat.zero_le 1)
        (fun light hlight => List.mem_singleton.mp (by simpa using hlight) ▸ hid)
      rw [List.append_nil] at hkept
      exact atomic_of_kept hrun ⟨hkept, rfl, rfl, rfl⟩

end Light

theorem updateSkybox_atomic (skybox : Value N V) : (Edit.updateSkybox skybox).Atomic world s := by
  have hrun : (Edit.updateSkybox skybox).apply world s =
      Edit.apply.outcome (updateSkybox world skybox s) := rfl
  unfold updateSkybox at hrun
  cases hskybox : world.normalizeSkybox skybox with
  | error message =>
    simp only [hskybox] at hrun
    exact atomic_of_same hrun
  | ok normalized =>
    simp only [hskybox] at hrun
    exact atomic_of_kept hrun ⟨rfl, rfl, rfl⟩

theorem updateBackground_atomic (background : Value N V) :
    (Edit.updateBackground background).Atomic world s := by
  have hrun : (Edit.updateBackground background).apply world s =
      Edit.apply.outcome (updateBackground world background s) := rfl
  unfold updateBackground at hrun
  cases hbackground : world.normalizeBackground background with
  | error message =>
    simp only [hbackground] at hrun
    exact atomic_of_same hrun
  | ok normalized =>
    simp only [hbackground] at hrun
    exact atomic_of_kept hrun ⟨rfl, rfl, rfl⟩

theorem updateTerrainRecord_atomic (terrainId : String) :
    (Edit.updateTerrainRecord terrainId updater).Atomic world s := by
  have hrun : (Edit.updateTerrainRecord terrainId updater).apply world s =
      Edit.apply.outcome (updateTerrainRecord world terrainId updater s) := rfl
  unfold updateTerrainRecord at hrun
  cases hcurrent : (findRecord terrainId s.terrains).map Prod.snd <|> findTerrain world terrainId s with
  | none =>
    simp only [hcurrent] at hrun
    exact atomic_of_kept hrun ⟨rfl, rfl, rfl, ReplacesOne.refl _⟩
  | some current =>
    simp only [hcurrent] at hrun
    cases hupdater : updater current with
    | error message =>
      simp only [hupdater] at hrun
      exact atomic_of_same hrun
    | ok next =>
      simp only [hupdater] at hrun
      cases hrecord : world.normalizeTerrain next with
      | error message =>
        simp only [hrecord] at hrun
        exact atomic_of_same hrun
      | ok record =>
        simp only [hrecord] at hrun
        have hid : (record.set "id" (.string terrainId)).hasId terrainId = true :=
          Record.hasId_iff.mpr (Record.get_set _ _ _)
        cases hfind : findRecord terrainId s.terrains with
        | none =>
          simp only [hfind] at hrun
          refine atomic_of_kept hrun ⟨rfl, rfl, rfl, ?_⟩
          exact ⟨s.terrains, [], [record.set "id" (.string terrainId)], [], by simp, by simp,
            Nat.zero_le 1, Nat.le_refl 1, by simpa using hid⟩
        | some entry =>
          obtain ⟨idx, stored⟩ := entry
          obtain ⟨front, back, hterrains, rfl, hstored⟩ := findRecord_eq_some hfind
          simp only [hfind] at hrun
          refine atomic_of_kept hrun ⟨rfl, rfl, rfl, front, [stored],
            [record.set "id" (.string terrainId)], back, ?_, ?_, Nat.le_refl 1, Nat.le_refl 1, ?_⟩
          · rw [hterrains]
            simp
          · rw [hterrains]
            simp
          · intro record' hrecord'
            rcases List.mem_append.mp hrecord' with hgone | hcome
            · rwa [List.mem_singleton.mp hgone]
            · rwa [List.mem_singleton.mp hcome]

/-- From a normalised scene state an edit keeps to itself unless it stores a light that the
normaliser rejects. -/
theorem edit_atomic_iff (world : World N V) (edit : Edit N V) (s : SceneState N V)
    (h : Normalised world.arithmetic s.lights) :
    edit.Atomic world s ↔ ¬ edit.StoresRejected world s := by
  cases edit with
  | updateLightRecord typeKey lightId updater =>
    by_cases hambient : typeKey = "ambient"
    · subst hambient
      exact updateAmbient_atomic_iff h
    · exact updateListed_atomic_iff h hambient
  | addLight typeKey => exact addLight_atomic_iff h
  | removeLight typeKey lightId => exact iff_of_true (removeLight_atomic h) not_false
  | updateSkybox skybox => exact iff_of_true (updateSkybox_atomic skybox) not_false
  | updateBackground background => exact iff_of_true (updateBackground_atomic background) not_false
  | updateTerrainRecord terrainId updater =>
    exact iff_of_true (updateTerrainRecord_atomic terrainId) not_false

section Concrete

/-- Arithmetic in millionths, exact along the axes. -/
def millionths : Arithmetic ℤ (ℤ × ℤ × ℤ) where
  literal value := ⌊value * 1000000⌋
  lt a b := a < b
  cos angle := 1000000 - angle ^ 2 / 2000000
  rad degrees := degrees * 355 / (113 * 180)
  roundSerializedNumber value := value
  vec3 x y z := (x, y, z)
  sub v w := v - w
  lengthExceeds v bound := bound ^ 2 < v.1 ^ 2 + v.2.1 ^ 2 + v.2.2 ^ 2
  normalize v :=
    let length := |v.1| + |v.2.1| + |v.2.2|
    (v.1 * 1000000 / length, v.2.1 * 1000000 / length, v.2.2 * 1000000 / length)
  components v := v
  tostring _ := "value"

def darkWorld : World ℤ (ℤ × ℤ × ℤ) where
  id := "home"
  arithmetic := millionths
  normalizeSkybox := .ok
  normalizeBackground := .ok
  normalizeTerrain := .ok
  sceneTerrains := none

def ambientRecord (color : Value ℤ (ℤ × ℤ × ℤ)) : Record ℤ (ℤ × ℤ × ℤ) := .ofFields
  [("id", .string "ambient"), ("color", color), ("enabled?", .boolean true)]

def darkScene : SceneState ℤ (ℤ × ℤ × ℤ) where
  lights := ⟨ambientRecord (.table [.number 0, .number 0, .number 0] []), [], [], [], []⟩
  skybox := .table [] []
  background := .table [] []
  terrains := []

/-- The ambient colour is set to a text. -/
def redEdit : Edit ℤ (ℤ × ℤ × ℤ) :=
  .updateLightRecord "ambient" "ambient" fun light => .ok (light.set "color" (.string "red"))

def whiteEdit : Edit ℤ (ℤ × ℤ × ℤ) :=
  .updateLightRecord "ambient" "ambient" fun light =>
    .ok (light.set "color" (.table [.number 1000000, .number 1000000, .number 1000000] []))

theorem normalised_darkScene : Normalised darkWorld.arithmetic darkScene.lights := rfl

/-- A text for a colour is rejected, and is the scene's ambient colour from then on. -/
theorem rejected_light_stored :
    Normalised darkWorld.arithmetic darkScene.lights ∧ ¬ redEdit.Atomic darkWorld darkScene := by
  refine ⟨normalised_darkScene, ?_⟩
  rintro ⟨hraised, -⟩
  have hsame := hraised (.rejected "Ambient light color must be a glm.vec3 or 3-number table") rfl rfl
  have hcolor := congrArg (fun s : SceneState ℤ (ℤ × ℤ × ℤ) =>
    (s.lights.ambient.get "color").any (Value.isString "red")) hsame
  cases hcolor

theorem whiteEdit_not_rejected : ¬ whiteEdit.StoresRejected darkWorld darkScene := by
  rintro ⟨next, message, hnext, herror⟩
  cases hnext
  cases herror

theorem edit_atomic_white :
    Normalised darkWorld.arithmetic darkScene.lights ∧
      (whiteEdit.Atomic darkWorld darkScene ↔ ¬ whiteEdit.StoresRejected darkWorld darkScene) ∧
      ¬ whiteEdit.StoresRejected darkWorld darkScene :=
  ⟨normalised_darkScene, edit_atomic_iff darkWorld whiteEdit darkScene normalised_darkScene,
    whiteEdit_not_rejected⟩

end Concrete

end Space2.WorldData
