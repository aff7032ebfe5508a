import Space2.Base.Sweeping
import Space2.WorldData.LightSystem

/-!
# Light states that are settled

The normaliser judges each record by itself, besides counting them, so a record
that is replaced in a normalised light state is all that it has to judge anew.
-/
namespace Space2.WorldData
open Base

variable {N V L : Type} (A : Arithmetic N V) {lights lights' : Lights N V} {typeKey : String}

/-- A record of a list normalised and written back, which a transient one is not. -/
def judge (typeKey : String) (light : Record N V) (idx : Nat) : Except String (Option (Record N V)) :=
  if typeKey = "directional" then
    (fun found => some (serializeDirectionalRecord A found)) <$>
      normalizeDirectional A (defaultDirectional A) light idx
  else if typeKey = "point" then
    (fun found => if found.transient = true then none else some (serializePointRecord A found)) <$>
      normalizePoint A (defaultPoint A) light idx
  else if typeKey = "spot" then
    (fun found => some (serializeSpotRecord A found)) <$> normalizeSpot A (defaultSpot A) light idx
  else .error ("Unknown light type " ++ typeKey)

def judgeAmbient (light : Record N V) : Except String (Record N V) :=
  serializeAmbientRecord A <$> normalizeAmbientRecord A light (defaultAmbient A)

def Within (typeKey : String) (count : Nat) : Prop :=
  ∀ spec, typeSpec typeKey = some spec → count ≤ spec.maxCount

section Lists

theorem mapM_map {α β γ ε : Type} (f : β → γ) (n : α → Except ε β) (l : List α) :
    l.mapM (fun a => f <$> n a) = List.map f <$> l.mapM n := by
  induction l with
  | nil => rfl
  | cons a l ih =>
    rw [List.mapM_cons, List.mapM_cons, ih]
    cases n a with
    | error e => rfl
    | ok b => cases l.mapM n <;> rfl

theorem mapM_length {α β ε : Type} {n : α → Except ε β} {l : List α} {out : List β}
    (h : l.mapM n = .ok out) : out.length = l.length :=
  (mapM_eq_ok.mp h).length_eq.symm

theorem normalizeList_eq_ok {items : List (Record N V)}
    {normalizer : Record N V → Nat → Except String L} {out : List L} :
    normalizeList items typeKey normalizer = .ok out ↔
      ((items.zipIdx 1).mapM fun entry => normalizer entry.1 entry.2) = .ok out ∧
        Within typeKey items.length := by
  have hcount : ∀ out, ((items.zipIdx 1).mapM fun entry => normalizer entry.1 entry.2) = .ok out →
      out.length = items.length := fun out h => by
    rw [mapM_length h, List.length_zipIdx]
  unfold normalizeList Within
  cases typeSpec typeKey with
  | none => simp
  | some spec =>
    simp only [bind_eq_ok, ensure_eq_ok, pure_eq_ok, exists_const, Option.some.injEq, forall_eq']
    constructor
    · rintro ⟨found, hfound, hle, rfl⟩
      exact ⟨hfound, hcount found hfound ▸ hle⟩
    · rintro ⟨hfound, hle⟩
      exact ⟨out, hfound, (hcount out hfound).symm ▸ hle, rfl⟩

theorem serializeList_eq (out : List L) (transient : L → Bool) (serializer : L → Record N V) :
    serializeList out transient serializer =
      (out.map fun light =>
        if transient light = true then none else some (serializer light)).reduceOption := by
  induction out with
  | nil => rfl
  | cons light out ih =>
    unfold serializeList at ih ⊢
    cases hlight : transient light <;> simp [hlight, ih, List.reduceOption]

theorem sweep_serialized {items r : List (Record N V)}
    {normalizer : Record N V → Nat → Except String L} {transient : L → Bool}
    {serializer : L → Record N V} :
    (∃ out, normalizeList items typeKey normalizer = .ok out ∧
        serializeList out transient serializer = r) ↔
      sweep (fun light idx =>
          (fun found => if transient found = true then none else some (serializer found)) <$>
            normalizer light idx) items 1 = .ok r ∧ Within typeKey items.length := by
  simp only [sweep, mapM_map, map_eq_ok, normalizeList_eq_ok, serializeList_eq]
  constructor
  · rintro ⟨out, ⟨hout, hwithin⟩, rfl⟩
    exact ⟨⟨_, ⟨out, hout, rfl⟩, rfl⟩, hwithin⟩
  · rintro ⟨⟨_, ⟨out, hout, rfl⟩, rfl⟩, hwithin⟩
    exact ⟨out, ⟨hout, hwithin⟩, rfl⟩

end Lists

section Items

theorem items_setItems_ne {other : String} (items : List (Record N V)) (h : other ≠ typeKey) :
    (lights.setItems typeKey items).items other = lights.items other := by
  unfold Lights.setItems Lights.items
  split_ifs <;> simp_all

theorem setItems_ambient (items : List (Record N V)) :
    (lights.setItems typeKey items).ambient = lights.ambient := by
  unfold Lights.setItems
  split_ifs <;> rfl

/-- A key that holds records is the key of a kind. -/
theorem items_setItems {items : List (Record N V)}
    (h : typeKey = "directional" ∨ typeKey = "point" ∨ typeKey = "spot") :
    (lights.setItems typeKey items).items typeKey = items := by
  rcases h with rfl | rfl | rfl <;> rfl

theorem kind_of_items (h : lights.items typeKey ≠ []) :
    typeKey = "directional" ∨ typeKey = "point" ∨ typeKey = "spot" := by
  unfold Lights.items at h
  split_ifs at h with hdirectional hpoint hspot
  · exact .inl hdirectional
  · exact .inr (.inl hpoint)
  · exact .inr (.inr hspot)
  · exact absurd rfl h

theorem kind_of_typeSpec {spec : TypeSpec} (h : typeSpec typeKey = some spec)
    (hambient : typeKey ≠ "ambient") :
    typeKey = "directional" ∨ typeKey = "point" ∨ typeKey = "spot" := by
  have hkey : spec.key = typeKey := by
    have hfound := List.find?_some h
    exact of_decide_eq_true hfound
  have hmem : spec ∈ lightTypeSpecs := List.mem_of_find?_eq_some h
  rw [← hkey] at hambient ⊢
  simp only [lightTypeSpecs, List.mem_cons, List.not_mem_nil, or_false] at hmem
  rcases hmem with rfl | rfl | rfl | rfl
  · exact absurd rfl hambient
  · exact .inl rfl
  · exact .inr (.inl rfl)
  · exact .inr (.inr rfl)

theorem Lights.eq_of_items (hambient : lights.ambient = lights'.ambient)
    (hitems : ∀ key, lights.items key = lights'.items key)
    (hunsupported : lights.unsupported = lights'.unsupported) : lights = lights' := by
  obtain ⟨ambient, directional, point, spot, unsupported⟩ := lights
  obtain ⟨ambient', directional', point', spot', unsupported'⟩ := lights'
  have hdirectional : directional = directional' := hitems "directional"
  have hpoint : point = point' := hitems "point"
  have hspot : spot = spot' := hitems "spot"
  simp_all

end Items

section State

/-- What the normaliser makes of the list under a key. -/
def Rewrites (lights lights' : Lights N V) (key : String) : Prop :=
  sweep (judge A key) (lights.items key) 1 = .ok (lights'.items key) ∧
    Within key (lights.items key).length

theorem rewrites_directional :
    (∃ out, normalizeList lights.directional "directional"
        (normalizeDirectional A (defaultDirectional A)) = .ok out ∧
        serializeList out (fun _ => false) (serializeDirectionalRecord A) = lights'.directional) ↔
      Rewrites A lights lights' "directional" :=
  sweep_serialized

theorem rewrites_point :
    (∃ out, normalizeList lights.point "point" (normalizePoint A (defaultPoint A)) = .ok out ∧
        serializeList out PointLight.transient (serializePointRecord A) = lights'.point) ↔
      Rewrites A lights lights' "point" :=
  sweep_serialized

theorem rewrites_spot :
    (∃ out, normalizeList lights.spot "spot" (normalizeSpot A (defaultSpot A)) = .ok out ∧
        serializeList out (fun _ => false) (serializeSpotRecord A) = lights'.spot) ↔
      Rewrites A lights lights' "spot" :=
  sweep_serialized

/-- Under a key of no kind there is nothing to rewrite. -/
theorem forall_rewrites :
    (∀ key, Rewrites A lights lights' key) ↔
      Rewrites A lights lights' "directional" ∧ Rewrites A lights lights' "point" ∧
        Rewrites A lights lights' "spot" := by
  constructor
  · exact fun h => ⟨h _, h _, h _⟩
  · rintro ⟨hdirectional, hpoint, hspot⟩ key
    by_cases hkind : key = "directional" ∨ key = "point" ∨ key = "spot"
    · rcases hkind with rfl | rfl | rfl
      · exact hdirectional
      · exact hpoint
      · exact hspot
    · have hnil : ∀ lights : Lights N V, lights.items key = [] := fun lights =>
        not_not.mp fun hitems => hkind (kind_of_items hitems)
      unfold Rewrites
      rw [hnil lights, hnil lights']
      exact ⟨rfl, fun _ _ => Nat.zero_le _⟩

/-- The normaliser rewrites the ambient record and each list apart. -/
theorem normalizeCompleteState_eq_ok :
    normalizeCompleteState A lights = .ok lights' ↔
      judgeAmbient A lights.ambient = .ok lights'.ambient ∧
        (∀ key, Rewrites A lights lights' key) ∧ lights'.unsupported = [] := by
  rw [forall_rewrites, ← rewrites_directional, ← rewrites_point, ← rewrites_spot]
  simp only [normalizeCompleteState, normalizeState, judgeAmbient, bind_eq_ok, pure_eq_ok, map_eq_ok,
    Option.map_some, Option.getD_some]
  constructor
  · rintro ⟨ambient, hambient, directional, hdirectional, point, hpoint, spot, hspot, rfl⟩
    exact ⟨⟨ambient, hambient, rfl⟩,
      ⟨⟨directional, hdirectional, rfl⟩, ⟨point, hpoint, rfl⟩, ⟨spot, hspot, rfl⟩⟩, rfl⟩
  · rintro ⟨⟨ambient, hambient, hambient'⟩, ⟨⟨directional, hdirectional, hdirectional'⟩,
      ⟨point, hpoint, hpoint'⟩, ⟨spot, hspot, hspot'⟩⟩, hunsupported⟩
    refine ⟨ambient, hambient, directional, hdirectional, point, hpoint, spot, hspot, ?_⟩
    obtain ⟨_, _, _, _, _⟩ := lights'
    simp_all

end State

section Normalised

/-- The index only serves to name a light without an id. -/
theorem judge_index {light : Record N V} {i : Nat} (j : Nat)
    (h : judge A typeKey light i = .ok (some light)) : judge A typeKey light j = .ok (some light) := by
  have hid : ∃ text, light.get "id" = some (.string text) := by
    unfold judge at h
    split_ifs at h with hdirectional hpoint hspot
    · obtain ⟨found, -, hfound⟩ := map_eq_ok.mp h
      exact ⟨found.id, by rw [← Option.some.inj hfound]; rfl⟩
    · obtain ⟨found, -, hfound⟩ := map_eq_ok.mp h
      split_ifs at hfound
      exact ⟨found.id, by rw [← Option.some.inj hfound]; rfl⟩
    · obtain ⟨found, -, hfound⟩ := map_eq_ok.mp h
      exact ⟨found.id, by rw [← Option.some.inj hfound]; rfl⟩
  obtain ⟨text, htext⟩ := hid
  rw [← h]
  simp only [judge, normalizeDirectional, normalizePoint, normalizeSpot, identifier_of_get A htext]

section Ids
variable {A} {fallback light : Record N V} {idx : Nat} {text : String}
  (hid : light.get "id" = some (.string text))
include hid

theorem normalizeDirectional_id {found : DirectionalLight N V}
    (h : normalizeDirectional A fallback light idx = .ok found) : found.id = text := by
  simp only [normalizeDirectional, bind_eq_ok, pure_eq_ok] at h
  obtain ⟨_, -, _, -, _, -, _, -, _, -, rfl⟩ := h
  exact identifier_of_get A hid

theorem normalizePoint_id {found : PointLight N V}
    (h : normalizePoint A fallback light idx = .ok found) : found.id = text := by
  simp only [normalizePoint, bind_eq_ok, pure_eq_ok] at h
  obtain ⟨_, -, _, -, _, -, _, -, _, -, _, -, _, -, _, -, rfl⟩ := h
  exact identifier_of_get A hid

theorem normalizeSpot_id {found : SpotLight N V}
    (h : normalizeSpot A fallback light idx = .ok found) : found.id = text := by
  simp only [normalizeSpot, bind_eq_ok, pure_eq_ok] at h
  obtain ⟨_, -, _, -, _, -, _, -, _, -, _, -, _, -, _, -, _, -, _, -, _, -, _, -, rfl⟩ := h
  exact identifier_of_get A hid

/-- A light keeps its id. -/
theorem judge_id {kept : Record N V} (h : judge A typeKey light idx = .ok (some kept)) :
    kept.hasId text = true := by
  rw [Record.hasId_iff]
  unfold judge at h
  split_ifs at h with hdirectional hpoint hspot
  · obtain ⟨found, hfound, hkept⟩ := map_eq_ok.mp h
    rw [← Option.some.inj hkept, ← normalizeDirectional_id hid hfound]
    rfl
  · obtain ⟨found, hfound, hkept⟩ := map_eq_ok.mp h
    split_ifs at hkept
    rw [← Option.some.inj hkept, ← normalizePoint_id hid hfound]
    rfl
  · obtain ⟨found, hfound, hkept⟩ := map_eq_ok.mp h
    rw [← Option.some.inj hkept, ← normalizeSpot_id hid hfound]
    rfl

end Ids

def Normalised (lights : Lights N V) : Prop := normalizeCompleteState A lights = .ok lights

variable {A} (h : Normalised A lights)
include h

theorem Normalised.ambient : judgeAmbient A lights.ambient = .ok lights.ambient :=
  ((normalizeCompleteState_eq_ok A).mp h).1

theorem Normalised.unsupported : lights.unsupported = [] :=
  ((normalizeCompleteState_eq_ok A).mp h).2.2

theorem Normalised.rewrites (key : String) : Rewrites A lights lights key :=
  ((normalizeCompleteState_eq_ok A).mp h).2.1 key

theorem Normalised.settled (key : String) : ∀ light ∈ lights.items key, Settled (judge A key) light :=
  settled_of_sweep (fun _ _ j => judge_index A j) (h.rewrites key).1

/-- With another ambient record only that record is judged. -/
theorem Normalised.with_ambient {light : Record N V} :
    normalizeCompleteState A { lights with ambient := light } = .ok lights' ↔
      ∃ ambient, judgeAmbient A light = .ok ambient ∧ lights' = { lights with ambient } := by
  rw [normalizeCompleteState_eq_ok]
  constructor
  · rintro ⟨hambient, hitems, hunsupported⟩
    refine ⟨_, hambient, Lights.eq_of_items rfl (fun key => ?_) (hunsupported.trans h.unsupported.symm)⟩
    exact Except.ok.inj ((hitems key).1.symm.trans (h.rewrites key).1)
  · rintro ⟨ambient, hambient, rfl⟩
    exact ⟨hambient, h.rewrites, h.unsupported⟩

/-- With another list under the key of a kind only that list is judged. -/
theorem Normalised.with_items (hkind : typeKey = "directional" ∨ typeKey = "point" ∨ typeKey = "spot")
    {items : List (Record N V)} :
    normalizeCompleteState A (lights.setItems typeKey items) = .ok lights' ↔
      ∃ kept, sweep (judge A typeKey) items 1 = .ok kept ∧ Within typeKey items.length ∧
        lights' = lights.setItems typeKey kept := by
  have hsame : ∀ items : List (Record N V), (lights.setItems typeKey items).unsupported = [] := by
    intro items
    rcases hkind with rfl | rfl | rfl <;> exact h.unsupported
  rw [normalizeCompleteState_eq_ok, setItems_ambient]
  constructor
  · rintro ⟨hambient, hitems, hunsupported⟩
    obtain ⟨hsweep, hwithin⟩ := hitems typeKey
    rw [items_setItems hkind] at hsweep hwithin
    refine ⟨lights'.items typeKey, hsweep, hwithin, Lights.eq_of_items ?_ (fun key => ?_) ?_⟩
    · rw [setItems_ambient]
      exact Except.ok.inj (hambient.symm.trans h.ambient)
    · by_cases hkey : key = typeKey
      · rw [hkey, items_setItems hkind]
      · have hother := (hitems key).1
        rw [items_setItems_ne _ hkey] at hother
        rw [items_setItems_ne _ hkey]
        exact Except.ok.inj (hother.symm.trans (h.rewrites key).1)
    · rw [hunsupported, hsame]
  · rintro ⟨kept, hsweep, hwithin, rfl⟩
    refine ⟨by rw [setItems_ambient]; exact h.ambient, fun key => ?_, hsame kept⟩
    unfold Rewrites
    by_cases hkey : key = typeKey
    · rw [hkey, items_setItems hkind, items_setItems hkind]
      exact ⟨hsweep, hwithin⟩
    · rw [items_setItems_ne _ hkey, items_setItems_ne _ hkey]
      exact h.rewrites key

end Normalised

end Space2.WorldData
