import Space2.Base.FirstFree
import Space2.Base.Raising

/-!
# The graph map manager

The manager keeps an entry for every map of a world and one instantiated map, that
of the active entry. The maps themselves, their files and the listeners of its two
signals are what it is given: each of their operations may change the world outside
of the manager in any way and may raise.
-/
namespace Space2.GraphMaps

open Space2.Base Op

/-- `nodes`, `edges`, `islands` and the other fields of an entry that its map captures are the
state `S`; `M` is a map and `W` the world outside of the manager. -/
structure Entry (M S : Type) where
  id : String
  name : Option String
  state : S
  restoredFromState : Bool
  seedStart : Bool
  map : Option M

inductive Change where
  | switched (previousId activeId : String)
  | created (createdId activeId : String)
  | renamed (renamedId : String) (name : Option String) (activeId : String)
  | deleted (deletedId activeId : String)

/-- The operations of the maps, of their files and of the signals. -/
structure Maps (W M S : Type) where
  newMap : String → Option String → Op W M
  restoreState : M → S → Op W Unit
  /-- `prune-hydrated-map!`, which also writes to the entry. -/
  pruneHydratedMap : M → Op (W × S) Unit
  /-- Loads the start node into a map that is empty. -/
  seedStart : M → Op (W × S) Unit
  captureState : M → Op W S
  drop : M → Op W Unit
  setMapName : M → Option String → W → W
  deleteMapMetadata : String → Op W Unit
  mapsWillChange : String → String → Op W Unit
  mapsChanged : Change → Op W Unit
  emptyState : S
  /-- Whether there is anything to restore. -/
  restorable : S → Bool

structure Manager (W M S : Type) where
  entries : List (Entry M S)
  activeId : String
  nextId : Nat
  /-- The fields of `self`. -/
  activeMapId : String
  activeMapName : Option String
  nextMapId : Nat
  world : W

def safeMapId (id : String) : Bool :=
  id ≠ "" && id.toList.head? ≠ some '.' && !(id.toList.contains '/') && !(id.toList.contains '\\') &&
    !(id.toList.contains '.')

variable {W M S : Type}

namespace Manager

def entry? (m : Manager W M S) (id : String) : Option (Entry M S) :=
  m.entries.find? fun entry => decide (entry.id = id)

/-- Writes to the entry with the id. -/
def update (m : Manager W M S) (id : String) (f : Entry M S → Entry M S) : Manager W M S :=
  { m with entries := m.entries.map fun entry => if entry.id = id then f entry else entry }

def setMap (m : Manager W M S) (id : String) (map : Option M) : Manager W M S :=
  m.update id fun entry => { entry with map := map }

def setState (m : Manager W M S) (id : String) (state : S) : Manager W M S :=
  m.update id fun entry => { entry with state := state }

def activate (m : Manager W M S) (id : String) (name : Option String) : Manager W M S :=
  { m with activeId := id, activeMapId := id, activeMapName := name }

end Manager

/-- An operation on the world outside. -/
def outside {α : Type} (p : Op W α) : Op (Manager W M S) α := fun m =>
  ((p m.world).1, { m with world := (p m.world).2 })

/-- An operation on the world outside that also writes to the state of an entry. -/
def onEntry (id : String) (p : Op (W × S) Unit) : Op (Manager W M S) Unit := fun m =>
  match m.entry? id with
  | none => (.ok (), m)
  | some entry =>
    ((p (m.world, entry.state)).1,
      { m with world := (p (m.world, entry.state)).2.1 }.setState id (p (m.world, entry.state)).2.2)

variable (maps : Maps W M S)

/-! ## Building and dropping maps -/

def constructMap (id : String) (name : Option String) (state : S) : Op W M := do
  let map ← maps.newMap id (some (name.getD id))
  let result ← caught (if maps.restorable state = true then maps.restoreState map state else pure ())
  match result with
  | .ok _ => pure map
  | .error message => do
    maps.drop map
    raise message

/-- Instantiates the map of an entry, which has none. -/
def hydrate (entry : Entry M S) : Op (Manager W M S) M := do
  let map ← outside (constructMap maps entry.id entry.name entry.state)
  modify fun m => m.setMap entry.id (some map)
  pure map

def hydrateActive (entry : Entry M S) : Op (Manager W M S) Unit := do
  let map ← hydrate maps entry
  onEntry entry.id (maps.pruneHydratedMap map)
  if entry.restoredFromState = false ∨ entry.seedStart = true then
    onEntry entry.id (maps.seedStart map)
  else pure ()

/-- Takes the map away from the entry and drops it. -/
def dropMap (id : String) : Op (Manager W M S) Unit := do
  let m ← get
  modify fun m => m.setMap id none
  match (m.entry? id).bind Entry.map with
  | none => pure ()
  | some map => outside (maps.drop map)

def buildActiveMap (targetId : String) : Op (Manager W M S) Unit := do
  let m ← get
  match m.entry? targetId with
  | none => pure ()
  | some entry => do
    require (entry.map.isNone = true)
      ("GraphMapManager.build-active-map map already active: " ++ targetId)
    let result ← caught (hydrateActive maps entry)
    match result with
    | .ok _ => pure ()
    | .error message => do
      let dropped ← caught (dropMap maps entry.id)
      match dropped with
      | .ok _ => raise message
      | .error dropMessage =>
        raise ("GraphMapManager failed to drop map after build failure: " ++ dropMessage ++
          " (build failure: " ++ message ++ ")")

def captureEntry (id : String) (map : M) : Op (Manager W M S) Unit := do
  let state ← outside (maps.captureState map)
  modify fun m => m.setState id state

def hydrateInactiveEntryForCapture (entry : Entry M S) : Op (Manager W M S) Unit :=
  match entry.map with
  | some map => do
    onEntry entry.id (maps.pruneHydratedMap map)
    captureEntry maps entry.id map
  | none => do
    let map ← hydrate maps entry
    let result ← caught (do
      onEntry entry.id (maps.pruneHydratedMap map)
      captureEntry maps entry.id map)
    let dropped ← caught (dropMap maps entry.id)
    match result, dropped with
    | .ok _, .ok _ => pure ()
    | .ok _, .error dropMessage => raise dropMessage
    | .error message, _ => raise message

def dropActiveMap : Op (Manager W M S) Unit := do
  let m ← get
  match (m.entry? m.activeId).bind Entry.map with
  | none => pure ()
  | some map => do
    captureEntry maps m.activeId map
    outside (maps.drop map)
    modify fun later => later.setMap m.activeId none

/-! ## The calls -/

/-- The part of `switch-map!` that may raise before the previous map is dropped, and the part
after it. -/
def leavePrevious (previousId targetId : String) : Op (Manager W M S) Unit := do
  outside (maps.mapsWillChange previousId targetId)
  dropActiveMap maps

def switchMap (targetId : String) : Op (Manager W M S) Unit := do
  let m ← get
  match m.entry? targetId with
  | none => raise ("GraphMapManager.switch-map! unknown map: " ++ targetId)
  | some entry =>
    if targetId = m.activeId then pure ()
    else do
      let previousId := m.activeId
      buildActiveMap maps targetId
      let left ← caught (leavePrevious maps previousId targetId)
      match left with
      | .ok _ => do
        modify fun later => later.activate targetId entry.name
        outside (maps.mapsChanged (.switched previousId targetId))
      | .error message => do
        let dropped ← caught (dropMap maps targetId)
        match dropped with
        | .ok _ => do
          modify fun later => later.activate previousId ((later.entry? previousId).bind Entry.name)
          raise message
        | .error dropMessage =>
          raise ("GraphMapManager failed to drop target map after switch failure: " ++ dropMessage ++
            " (switch failure: " ++ message ++ ")")

def Manager.add (m : Manager W M S) (entry : Entry M S) : Manager W M S :=
  { m with
    entries := m.entries ++ [entry]
    nextId := m.nextId + 1
    nextMapId := m.nextId + 1 }

def invalidMapId (context id : String) : String :=
  context ++ ": map-id contains invalid characters: " ++ id

def createMap (id : String) (name : Option String) : Op (Manager W M S) String := do
  require (safeMapId id = true) (invalidMapId "GraphMapManager.create-map!" id)
  let m ← get
  require ((m.entry? id).isNone = true) ("GraphMapManager.create-map! duplicate id: " ++ id)
  modify fun m => m.add ⟨id, some (name.getD id), maps.emptyState, false, false, none⟩
  outside (maps.mapsChanged (.created id m.activeId))
  pure id

def renameInstantiated (entry : Entry M S) (name : Option String) : Op (Manager W M S) Unit :=
  match entry.map with
  | none => pure ()
  | some map => modify fun m => { m with world := maps.setMapName map name m.world }

def renameActive (id : String) (name : Option String) : Op (Manager W M S) Unit :=
  modify fun m => if id = m.activeId then { m with activeMapName := name } else m

def renameMap (id : String) (name : Option String) : Op (Manager W M S) Unit := do
  let m ← get
  match m.entry? id with
  | none => raise ("GraphMapManager.rename-map! unknown map: " ++ id)
  | some entry => do
    modify fun later => later.update id fun entry => { entry with name := name }
    renameInstantiated maps entry name
    renameActive id name
    outside (maps.mapsChanged (.renamed id name m.activeId))

def dropInstantiated (entry : Entry M S) : Op (Manager W M S) Unit :=
  match entry.map with
  | none => pure ()
  | some map => do
    outside (maps.drop map)
    modify fun m => m.setMap entry.id none

def deleteMap (id : String) : Op (Manager W M S) Unit := do
  let m ← get
  require (id ≠ m.activeId) "GraphMapManager.delete-map! cannot delete active map"
  match m.entry? id with
  | none => raise ("GraphMapManager.delete-map! unknown map: " ++ id)
  | some entry => do
    require (1 < m.entries.length) "GraphMapManager.delete-map! cannot delete the only map"
    dropInstantiated maps entry
    modify fun later => { later with entries := later.entries.filter fun entry => decide (entry.id ≠ id) }
    outside (maps.deleteMapMetadata id)
    outside (maps.mapsChanged (.deleted id m.activeId))

/-- An inactive entry has its state itself. -/
def snapshotState (entry : Entry M S) : Op (Manager W M S) S :=
  match entry.map with
  | none => pure entry.state
  | some map => outside (maps.captureState map)

def snapshotReferenceMaps : List (Entry M S) → Op (Manager W M S) (List (String × Option String × S))
  | [] => pure []
  | entry :: rest => do
    let state ← snapshotState maps entry
    let records ← snapshotReferenceMaps rest
    pure ((entry.id, entry.name, state) :: records)

def captureState : Op (Manager W M S) (List (String × Option String × S)) := do
  let m ← get
  forEach (m.entries.filter fun entry => decide (entry.id ≠ m.activeId))
    (hydrateInactiveEntryForCapture maps)
  let m ← get
  snapshotReferenceMaps maps m.entries

def mapIdAt (n : Nat) : String := "map-" ++ toString n

/-- The loop of `create-and-switch-map!`, which makes one pass more than there are entries at
most. -/
def freeMapId (m : Manager W M S) : Manager W M S :=
  { m with nextId := firstFree (fun n => (m.entry? (mapIdAt n)).isSome) (m.entries.length + 1) m.nextId }

def createAndSwitchMap (name : Option String) (state : S) : Op (Manager W M S) (Option M) := do
  modify freeMapId
  let m ← get
  let id := mapIdAt m.nextId
  require (safeMapId id = true) (invalidMapId "GraphMapManager.create-and-switch-map!" id)
  modify fun m => m.add ⟨id, some (name.getD id), state, true, false, none⟩
  outside (maps.mapsChanged (.created id m.activeId))
  switchMap maps id
  let m ← get
  pure ((m.entry? m.activeId).bind Entry.map)

inductive Call (S : Type) where
  | create (id : String) (name : Option String)
  | createAndSwitch (name : Option String) (state : S)
  | switch (targetId : String)
  | rename (id : String) (name : Option String)
  | delete (id : String)
  | capture

/-- The manager after a call, whether it answered or raised. -/
def step (m : Manager W M S) : Call S → Manager W M S
  | .create id name => (createMap maps id name m).2
  | .createAndSwitch name state => (createAndSwitchMap maps name state m).2
  | .switch targetId => (switchMap maps targetId m).2
  | .rename id name => (renameMap maps id name m).2
  | .delete id => (deleteMap maps id m).2
  | .capture => (captureState maps m).2

/-! ## A new manager -/

/-- What `parse-legacy-state` reads from any of the shapes of a persisted state. -/
structure ParsedState (S : Type) where
  activeMapId : String
  nextMapId : Nat
  records : List (String × Option String × S)
  restoredFromState : Bool
  seedStart : Bool

def digit (c : Char) : Nat := c.toNat - 48

/-- The number of an id that matches `^(map%-)(%d+)$`. -/
def mapSuffix (id : String) : Option Nat :=
  let digits := id.toList.drop 4
  if id.toList.take 4 = ['m', 'a', 'p', '-'] ∧ digits ≠ [] ∧ (digits.all Char.isDigit) = true then
    some (digits.foldl (fun n c => 10 * n + digit c) 0)
  else none

def firstNextId (parsed : ParsedState S) : Nat :=
  parsed.records.foldl (fun next record => match mapSuffix record.1 with
    | some n => max next (n + 1)
    | none => next) parsed.nextMapId

def ParsedState.entries (parsed : ParsedState S) : List (Entry M S) :=
  parsed.records.map fun record =>
    ⟨record.1, record.2.1, record.2.2, parsed.restoredFromState, parsed.seedStart, none⟩

def ParsedState.manager (parsed : ParsedState S) (world : W) : Manager W M S where
  entries := parsed.entries
  activeId := parsed.activeMapId
  nextId := firstNextId parsed
  activeMapId := parsed.activeMapId
  activeMapName := (parsed.records.lookup parsed.activeMapId).bind Prod.fst
  nextMapId := firstNextId parsed
  world := world

/-- Ids that are unsafe or not unique, and an active id without a map, are refused. -/
def ParsedState.refusal (parsed : ParsedState S) : Option String :=
  if safeMapId parsed.activeMapId = false then
    some (invalidMapId "active_map_id" parsed.activeMapId)
  else if (parsed.records.all fun record => safeMapId record.1) = false then
    some "maps-entry.id: map-id contains invalid characters"
  else if ¬ (parsed.records.map Prod.fst).Nodup then
    some "GraphMapManager duplicate map id in state"
  else if parsed.activeMapId ∉ parsed.records.map Prod.fst then
    some ("GraphMapManager active_map_id does not reference a map: " ++ parsed.activeMapId)
  else none

def newManager (parsed : ParsedState S) (world : W) : Except String (Manager W M S) :=
  match parsed.refusal with
  | some message => .error message
  | none =>
    match buildActiveMap maps parsed.activeMapId (parsed.manager world) with
    | (.ok _, m) => .ok m
    | (.error message, _) => .error message

end Space2.GraphMaps
