import Space2.Base.FirstFree
import Space2.WorldData.LightSystem

/-!
# Edits of a scene state

The edits work on the tables the session shares, so what they store before
they raise stays stored. Syncing the runtime scene, saving the world and telling
the listeners come after an edit and are left out.
-/
namespace Space2.WorldData
open Base

structure SceneState (N V : Type) where
  lights : Lights N V
  skybox : Value N V
  background : Value N V
  terrains : List (Record N V)

/-- What an edit reads besides the scene state. How the other three normalisers decide does
not matter here. -/
structure World (N V : Type) where
  id : String
  arithmetic : Arithmetic N V
  normalizeSkybox : Value N V → Except String (Value N V)
  normalizeBackground : Value N V → Except String (Value N V)
  normalizeTerrain : Record N V → Except String (Record N V)
  /-- The records of the runtime scene's terrains, if the activity is the active one. -/
  sceneTerrains : Option (List (Option (Record N V)))

inductive Raised
  | refused (message : String)
  | updater (message : String)
  | rejected (message : String)

variable {N V : Type}

section Operations
variable (world : World N V)

/-- The scene state's own light table is normalised in place. -/
def persistLightState (s : SceneState N V) : Except Raised (Lights N V) × SceneState N V :=
  match normalizeCompleteState world.arithmetic s.lights with
  | .error message => (.error (.rejected message), s)
  | .ok normalized => (.ok normalized, { s with lights := normalized })

/-- What an operation answers once its last step is done. -/
def answer {α β : Type} (run : Except Raised α × SceneState N V) (f : α → β) :
    Except Raised β × SceneState N V :=
  (f <$> run.1, run.2)

/-- The first record under an id, and its index. -/
def findRecord (id : String) (items : List (Record N V)) : Option (Nat × Record N V) := do
  let idx ← items.findIdx? (Record.hasId id)
  let current ← items[idx]?
  pure (idx, current)

def updateLightRecord (typeKey lightId : String) (updater : Record N V → Except String (Record N V))
    (s : SceneState N V) : Except Raised (Option (Record N V)) × SceneState N V :=
  match persistLightState world s with
  | (.error raised, s) => (.error raised, s)
  | (.ok lights, s) =>
    if typeKey = "ambient" then
      match updater lights.ambient with
      | .error message => (.error (.updater message), s)
      | .ok next =>
        let s := { s with lights := { lights with ambient := next.set "id" (.string "ambient") } }
        answer (persistLightState world s) fun normalized => some normalized.ambient
    else
      let s := { s with lights := lights.setItems typeKey (lights.items typeKey) }
      match findRecord lightId (lights.items typeKey) with
      | none =>
        (.error (.refused ("Cannot update missing " ++ typeKey ++ " light " ++ lightId ++
          " in world " ++ world.id)), s)
      | some (idx, current) =>
        match updater current with
        | .error message => (.error (.updater message), s)
        | .ok next =>
          let items := (lights.items typeKey).set idx (next.set "id" (.string lightId))
          answer (persistLightState world { s with lights := lights.setItems typeKey items })
            fun normalized => (normalized.items typeKey)[idx]?

/-- The first of the ids `type-1`, `type-2`, .. that no light of the kind has. -/
def nextLightId (lights : Lights N V) (typeKey : String) : String :=
  let used idx := (lights.items typeKey).any (Record.hasId (typeKey ++ "-" ++ toString idx))
  typeKey ++ "-" ++ toString (firstFree used ((lights.items typeKey).length + 1) 1)

/-- The record a new light starts from. -/
def newLight (typeKey : String) (lights : Lights N V) : Except String (Record N V) := do
  let defaults ← defaultState world.arithmetic
  defaultRecordForType world.arithmetic typeKey (nextLightId lights typeKey)
    ((lights.items typeKey).length + 1) defaults

def addLight (typeKey : String) (s : SceneState N V) :
    Except Raised (Option (Record N V)) × SceneState N V :=
  match persistLightState world s with
  | (.error raised, s) => (.error raised, s)
  | (.ok lights, s) =>
    match typeSpec typeKey with
    | none => (.error (.refused ("Unsupported light type " ++ typeKey)), s)
    | some spec =>
      if typeKey = "ambient" then
        (.error (.refused "Ambient light is a required singleton and cannot be added"), s)
      else if (lights.items typeKey).length < spec.maxCount then
        match newLight world typeKey lights with
        | .error message => (.error (.rejected message), s)
        | .ok record =>
          let items := lights.items typeKey ++ [record]
          answer (persistLightState world { s with lights := lights.setItems typeKey items })
            fun normalized => (normalized.items typeKey)[(lights.items typeKey).length]?
      else
        (.error (.refused ("Cannot add more than " ++ toString spec.maxCount ++ " " ++ typeKey ++
          " lights")), s)

def removeLight (typeKey lightId : String) (s : SceneState N V) :
    Except Raised Bool × SceneState N V :=
  match persistLightState world s with
  | (.error raised, s) => (.error raised, s)
  | (.ok lights, s) =>
    if typeKey = "ambient" then
      (.error (.refused "Ambient light is required and cannot be removed"), s)
    else
      match findRecord lightId (lights.items typeKey) with
      | none =>
        (.error (.refused ("Cannot remove missing " ++ typeKey ++ " light " ++ lightId ++
          " from world " ++ world.id)), s)
      | some (idx, _) =>
        let items := (lights.items typeKey).eraseIdx idx
        answer (persistLightState world { s with lights := lights.setItems typeKey items })
          fun _ => true

def updateSkybox (skybox : Value N V) (s : SceneState N V) :
    Except Raised (Value N V) × SceneState N V :=
  match world.normalizeSkybox skybox with
  | .error message => (.error (.rejected message), s)
  | .ok normalized => (.ok normalized, { s with skybox := normalized })

def updateBackground (background : Value N V) (s : SceneState N V) :
    Except Raised (Value N V) × SceneState N V :=
  match world.normalizeBackground background with
  | .error message => (.error (.rejected message), s)
  | .ok normalized => (.ok normalized, { s with background := normalized })

/-- `find-terrain`: the runtime scene's terrains where the activity is active, else the stored
ones. A terrain without an id goes by `unknown`. -/
def findTerrain (terrainId : String) (s : SceneState N V) : Option (Record N V) :=
  let records := world.sceneTerrains.getD (s.terrains.map some)
  let named (record : Option (Record N V)) : Bool :=
    (Value.orElse (record.bind (Record.get · "id")) (some (.string "unknown"))).any
      (Value.isString terrainId)
  (records.find? named).join

def updateTerrainRecord (terrainId : String) (updater : Record N V → Except String (Record N V))
    (s : SceneState N V) : Except Raised (Option (Record N V)) × SceneState N V :=
  let stored := findRecord terrainId s.terrains
  match (stored.map Prod.snd <|> findTerrain world terrainId s) with
  | none => (.ok none, s)
  | some current =>
    match updater current with
    | .error message => (.error (.updater message), s)
    | .ok next =>
      match world.normalizeTerrain next with
      | .error message => (.error (.rejected message), s)
      | .ok record =>
        let normalized := record.set "id" (.string terrainId)
        match stored with
        | some (idx, _) => (.ok (some normalized), { s with terrains := s.terrains.set idx normalized })
        | none => (.ok (some normalized), { s with terrains := s.terrains ++ [normalized] })

inductive Edit (N V : Type)
  | updateLightRecord (typeKey lightId : String) (updater : Record N V → Except String (Record N V))
  | addLight (typeKey : String)
  | removeLight (typeKey lightId : String)
  | updateSkybox (skybox : Value N V)
  | updateBackground (background : Value N V)
  | updateTerrainRecord (terrainId : String) (updater : Record N V → Except String (Record N V))

/-- What an edit raises, if it does, and the scene state it leaves. -/
def Edit.apply (edit : Edit N V) (s : SceneState N V) : Option Raised × SceneState N V :=
  match edit with
  | .updateLightRecord typeKey lightId updater =>
    outcome (WorldData.updateLightRecord world typeKey lightId updater s)
  | .addLight typeKey => outcome (WorldData.addLight world typeKey s)
  | .removeLight typeKey lightId => outcome (WorldData.removeLight world typeKey lightId s)
  | .updateSkybox skybox => outcome (WorldData.updateSkybox world skybox s)
  | .updateBackground background => outcome (WorldData.updateBackground world background s)
  | .updateTerrainRecord terrainId updater =>
    outcome (WorldData.updateTerrainRecord world terrainId updater s)
where
  outcome {α : Type} (run : Except Raised α × SceneState N V) : Option Raised × SceneState N V :=
    (match run.1 with
      | .error raised => some raised
      | .ok _ => none, run.2)

end Operations

end Space2.WorldData
