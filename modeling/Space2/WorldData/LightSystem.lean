import Space2.Base.Checks

/-!
# Light records and their normaliser

A scene keeps its lights as tables of numbers. The normaliser reads each table
into a light, fills what is missing from the default of its kind, and writes it
back rounded to six decimals. The numbers and the vectors of `glm` are abstract,
what is done with them a parameter.
-/
namespace Space2.WorldData
open Base

/-- A Lua value other than `nil`. -/
inductive Value (N V : Type)
  | boolean (value : Bool)
  | number (value : N)
  | string (text : String)
  | vector (value : V)
  | table (items : List (Value N V)) (fields : List (String × Value N V))
  | native (typeName : String)

structure Arithmetic (N V : Type) where
  literal : ℚ → N
  lt : N → N → Bool
  cos : N → N
  rad : N → N
  roundSerializedNumber : N → N
  vec3 : N → N → N → V
  sub : V → V → V
  lengthExceeds : V → N → Bool
  normalize : V → V
  components : V → N × N × N
  tostring : Value N V → String

variable {N V L : Type}

namespace Value

def truthy : Value N V → Bool
  | boolean value => value
  | _ => true

/-- `(or value fallback)` -/
def orElse (value fallback : Option (Value N V)) : Option (Value N V) :=
  match value with
  | some found => if found.truthy = true then some found else fallback
  | none => fallback

def isString (text : String) : Value N V → Bool
  | string found => found = text
  | _ => false

end Value

/-- A table that is read as a record. -/
structure Record (N V : Type) where
  items : List (Value N V)
  fields : List (String × Value N V)

namespace Record

def ofFields (fields : List (String × Value N V)) : Record N V := ⟨[], fields⟩

def get (record : Record N V) (key : String) : Option (Value N V) := record.fields.lookup key

def set (record : Record N V) (key : String) (value : Value N V) : Record N V :=
  { record with fields := (key, value) :: record.fields.filter fun field => field.1 ≠ key }

/-- `(= (and record record.id) id)` -/
def hasId (id : String) (record : Record N V) : Bool := (record.get "id").any (Value.isString id)

@[simp] theorem get_set (record : Record N V) (key : String) (value : Value N V) :
    (record.set key value).get key = some value := by
  simp [set, get]

theorem hasId_iff {id : String} {record : Record N V} :
    record.hasId id = true ↔ record.get "id" = some (.string id) := by
  unfold hasId
  cases record.get "id" with
  | none => simp
  | some value => cases value <;> simp [Value.isString, eq_comm]

end Record

def lightEnabled (light : Record N V) : Bool :=
  match light.get "enabled?" with
  | some (.boolean false) => false
  | _ => true

structure TypeSpec where
  key : String
  maxCount : Nat

def lightTypeSpecs : List TypeSpec :=
  [⟨"ambient", 1⟩, ⟨"directional", 4⟩, ⟨"point", 8⟩, ⟨"spot", 4⟩]

def typeSpec (typeKey : String) : Option TypeSpec := lightTypeSpecs.find? fun spec => spec.key = typeKey

def generatedId (typeKey : String) (idx : Nat) : String :=
  if typeKey = "ambient" then "ambient" else typeKey ++ "-" ++ toString idx

section Reading
variable (A : Arithmetic N V)

def ensureVec3 (value : Option (Value N V)) (label : String) : Except String V :=
  match value with
  | none => .error (label ++ " is required")
  | some (.vector found) => .ok found
  | some (.number n) => .ok (A.vec3 n n n)
  | some (.table items fields) =>
    let x := Value.orElse items[0]? (fields.lookup "x")
    let y := Value.orElse items[1]? (fields.lookup "y")
    let z := Value.orElse items[2]? (fields.lookup "z")
    match x, y, z with
    | some (.number x), some (.number y), some (.number z) => .ok (A.vec3 x y z)
    | some x, some y, some z =>
      -- what `glm.vec3` is given is not three numbers
      if x.truthy && y.truthy && z.truthy then .error "no matching function call"
      else .error (label ++ " must provide x y z values")
    | _, _, _ => .error (label ++ " must provide x y z values")
  | some _ => .error (label ++ " must be a glm.vec3 or 3-number table")

def ensureNumber (value : Option (Value N V)) (label : String) : Except String N :=
  match value with
  | none => .error (label ++ " is required")
  | some (.number n) => .ok n
  | some _ => .error (label ++ " must be a number")

def normalizeDirection (value : Option (Value N V)) (label : String) : Except String V := do
  let direction ← ensureVec3 A value label
  ensure (A.lengthExceeds direction (A.literal (1 / 1000000)) = true) (label ++ " must be non-zero")
  pure (A.normalize direction)

def tostring : Value N V → String
  | .string text => text
  | value => A.tostring value

/-- `(tostring (or base.id fallback.id generated))` -/
def identifier (base fallback : Record N V) (generated : String) : String :=
  match Value.orElse (base.get "id") (Value.orElse (fallback.get "id") (some (.string generated))) with
  | some value => tostring A value
  | none => generated

/-- Whether a record is on, or its fallback where the record does not say. -/
def enabledOr (base fallback : Record N V) : Bool :=
  match base.get "enabled?" with
  | none => lightEnabled fallback
  | some _ => lightEnabled base

/-- `(or base.key fallback.key)` -/
def fieldOr (base fallback : Record N V) (key : String) : Option (Value N V) :=
  Value.orElse (base.get key) (fallback.get key)

theorem identifier_of_get {base fallback : Record N V} {generated text : String}
    (h : base.get "id" = some (.string text)) : identifier A base fallback generated = text := by
  simp [identifier, h, Value.orElse, Value.truthy, tostring]

end Reading

section Defaults
variable (A : Arithmetic N V)

def grey (level : ℚ) : Value N V := .vector (A.vec3 (A.literal level) (A.literal level) (A.literal level))

def defaultLightDirection : V :=
  A.normalize (A.sub (A.vec3 (A.literal 200) (A.literal 200) (A.literal 200))
    (A.vec3 (A.literal 0) (A.literal (-100)) (A.literal 0)))

def defaultAmbient : Record N V := .ofFields
  [("id", .string "ambient"), ("color", grey A 0), ("enabled?", .boolean true)]

def defaultDirectional : Record N V := .ofFields
  [("direction", .vector (defaultLightDirection A)), ("ambient", grey A 0.4),
    ("diffuse", grey A 0.6), ("specular", grey A 1), ("specular-power", .number (A.literal 8)),
    ("enabled?", .boolean true)]

def defaultPoint : Record N V := .ofFields
  [("position", grey A 0), ("ambient", grey A 0), ("diffuse", grey A 1), ("specular", grey A 1),
    ("specular-power", .number (A.literal 8)), ("constant", .number (A.literal 1)),
    ("linear", .number (A.literal 0.09)), ("quadratic", .number (A.literal 0.032)),
    ("enabled?", .boolean true)]

def defaultSpot : Record N V := .ofFields
  [("position", grey A 0),
    ("direction", .vector (A.vec3 (A.literal 0) (A.literal 0) (A.literal (-1)))),
    ("ambient", grey A 0), ("diffuse", grey A 1), ("specular", grey A 1),
    ("specular-power", .number (A.literal 8)),
    ("cutoff", .number (A.cos (A.rad (A.literal 12.5)))),
    ("outer-cutoff", .number (A.cos (A.rad (A.literal 17.5)))),
    ("constant", .number (A.literal 1)), ("linear", .number (A.literal 0.09)),
    ("quadratic", .number (A.literal 0.032)), ("enabled?", .boolean true)]

end Defaults

structure AmbientLight (V : Type) where
  id : String
  color : V
  enabled : Bool

structure DirectionalLight (N V : Type) where
  id : String
  direction : V
  ambient : V
  diffuse : V
  specular : V
  specularPower : N
  enabled : Bool

structure PointLight (N V : Type) where
  id : String
  position : V
  ambient : V
  diffuse : V
  specular : V
  specularPower : N
  constant : N
  linear : N
  quadratic : N
  transient : Bool
  enabled : Bool

structure SpotLight (N V : Type) where
  id : String
  position : V
  direction : V
  ambient : V
  diffuse : V
  specular : V
  specularPower : N
  cutoff : N
  outerCutoff : N
  constant : N
  linear : N
  quadratic : N
  enabled : Bool

section Normalizing
variable (A : Arithmetic N V)

def normalizeAmbientRecord (light fallback : Record N V) : Except String (AmbientLight V) := do
  let named := Value.orElse (light.get "color") (Value.orElse (light.get "ambient") (light.get "id"))
  let colorSource :=
    if named.any Value.truthy = true ∨ (light.get "enabled?").isSome = true then
      Value.orElse (light.get "color") (light.get "ambient")
    else if light.items.length > 0 then some (.table light.items light.fields) else none
  let color ← ensureVec3 A
    (Value.orElse colorSource (Value.orElse (fallback.get "color") (fallback.get "ambient")))
    "Ambient light color"
  pure { id := identifier A light fallback "ambient", color, enabled := enabledOr light fallback }

def normalizeDirectional (fallback light : Record N V) (idx : Nat) :
    Except String (DirectionalLight N V) := do
  let direction ← normalizeDirection A (fieldOr light fallback "direction") "Directional light direction"
  let ambient ← ensureVec3 A (fieldOr light fallback "ambient") "Directional light ambient"
  let diffuse ← ensureVec3 A (fieldOr light fallback "diffuse") "Directional light diffuse"
  let specular ← ensureVec3 A (fieldOr light fallback "specular") "Directional light specular"
  let specularPower ← ensureNumber (fieldOr light fallback "specular-power")
    "Directional light specular power"
  pure { id := identifier A light fallback (generatedId "directional" idx), direction, ambient,
         diffuse, specular, specularPower, enabled := enabledOr light fallback }

def normalizePoint (fallback light : Record N V) (idx : Nat) : Except String (PointLight N V) := do
  let position ← ensureVec3 A (fieldOr light fallback "position") "Point light position"
  let ambient ← ensureVec3 A (fieldOr light fallback "ambient") "Point light ambient"
  let diffuse ← ensureVec3 A (fieldOr light fallback "diffuse") "Point light diffuse"
  let specular ← ensureVec3 A (fieldOr light fallback "specular") "Point light specular"
  let specularPower ← ensureNumber (fieldOr light fallback "specular-power") "Point light specular power"
  let constant ← ensureNumber (fieldOr light fallback "constant") "Point light constant attenuation"
  let linear ← ensureNumber (fieldOr light fallback "linear") "Point light linear attenuation"
  let quadratic ← ensureNumber (fieldOr light fallback "quadratic") "Point light quadratic attenuation"
  let transient := match light.get "transient?" with
    | some (.boolean true) => true
    | _ => false
  pure { id := identifier A light fallback (generatedId "point" idx), position, ambient, diffuse,
         specular, specularPower, constant, linear, quadratic, transient,
         enabled := enabledOr light fallback }

def normalizeSpot (fallback light : Record N V) (idx : Nat) : Except String (SpotLight N V) := do
  let cutoff ← ensureNumber (fieldOr light fallback "cutoff") "Spot light cutoff"
  let outerCutoff ← ensureNumber (fieldOr light fallback "outer-cutoff") "Spot light outer cutoff"
  ensure (A.lt outerCutoff cutoff = true) "Spot light cutoff must be greater than outer cutoff"
  let position ← ensureVec3 A (fieldOr light fallback "position") "Spot light position"
  let direction ← normalizeDirection A (fieldOr light fallback "direction") "Spot light direction"
  let ambient ← ensureVec3 A (fieldOr light fallback "ambient") "Spot light ambient"
  let diffuse ← ensureVec3 A (fieldOr light fallback "diffuse") "Spot light diffuse"
  let specular ← ensureVec3 A (fieldOr light fallback "specular") "Spot light specular"
  let specularPower ← ensureNumber (fieldOr light fallback "specular-power") "Spot light specular power"
  let constant ← ensureNumber (fieldOr light fallback "constant") "Spot light constant attenuation"
  let linear ← ensureNumber (fieldOr light fallback "linear") "Spot light linear attenuation"
  let quadratic ← ensureNumber (fieldOr light fallback "quadratic") "Spot light quadratic attenuation"
  pure { id := identifier A light fallback (generatedId "spot" idx), position, direction, ambient,
         diffuse, specular, specularPower, cutoff, outerCutoff, constant, linear, quadratic,
         enabled := enabledOr light fallback }

def normalizeList (items : List (Record N V)) (typeKey : String)
    (normalizer : Record N V → Nat → Except String L) : Except String (List L) := do
  let out ← (items.zipIdx 1).mapM fun entry => normalizer entry.1 entry.2
  match typeSpec typeKey with
  | none => pure out
  | some spec =>
    ensure (out.length ≤ spec.maxCount)
      ("Too many " ++ typeKey ++ " lights (" ++ toString out.length ++ " > " ++
        toString spec.maxCount ++ ")")
    pure out

end Normalizing

section Serializing
variable (A : Arithmetic N V)

def serializeNumber (value : N) : Value N V := .number (A.roundSerializedNumber value)

def serializeVec3 (value : V) : Value N V :=
  .table [serializeNumber A (A.components value).1, serializeNumber A (A.components value).2.1,
    serializeNumber A (A.components value).2.2] []

def serializeAmbientRecord (light : AmbientLight V) : Record N V := .ofFields
  [("id", .string light.id), ("color", serializeVec3 A light.color), ("enabled?", .boolean light.enabled)]

def serializeDirectionalRecord (light : DirectionalLight N V) : Record N V := .ofFields
  [("id", .string light.id), ("direction", serializeVec3 A light.direction),
    ("ambient", serializeVec3 A light.ambient), ("diffuse", serializeVec3 A light.diffuse),
    ("specular", serializeVec3 A light.specular),
    ("specular-power", serializeNumber A light.specularPower), ("enabled?", .boolean light.enabled)]

def serializePointRecord (light : PointLight N V) : Record N V := .ofFields
  [("id", .string light.id), ("position", serializeVec3 A light.position),
    ("ambient", serializeVec3 A light.ambient), ("diffuse", serializeVec3 A light.diffuse),
    ("specular", serializeVec3 A light.specular),
    ("specular-power", serializeNumber A light.specularPower),
    ("constant", serializeNumber A light.constant), ("linear", serializeNumber A light.linear),
    ("quadratic", serializeNumber A light.quadratic), ("enabled?", .boolean light.enabled)]

def serializeSpotRecord (light : SpotLight N V) : Record N V := .ofFields
  [("id", .string light.id), ("position", serializeVec3 A light.position),
    ("direction", serializeVec3 A light.direction), ("ambient", serializeVec3 A light.ambient),
    ("diffuse", serializeVec3 A light.diffuse), ("specular", serializeVec3 A light.specular),
    ("specular-power", serializeNumber A light.specularPower),
    ("cutoff", serializeNumber A light.cutoff), ("outer-cutoff", serializeNumber A light.outerCutoff),
    ("constant", serializeNumber A light.constant), ("linear", serializeNumber A light.linear),
    ("quadratic", serializeNumber A light.quadratic), ("enabled?", .boolean light.enabled)]

/-- Only a point light can be transient, and is then not written. -/
def serializeList (items : List L) (transient : L → Bool) (serializer : L → Record N V) :
    List (Record N V) :=
  (items.filter fun item => !transient item).map serializer

end Serializing

/-- The light state of a scene, with the empty lists stored under keys that name no kind. -/
structure Lights (N V : Type) where
  ambient : Record N V
  directional : List (Record N V)
  point : List (Record N V)
  spot : List (Record N V)
  unsupported : List String

namespace Lights

/-- `(or (. lights type-key) [])` for a key other than the ambient one. -/
def items (lights : Lights N V) (typeKey : String) : List (Record N V) :=
  if typeKey = "directional" then lights.directional
  else if typeKey = "point" then lights.point
  else if typeKey = "spot" then lights.spot
  else []

/-- `(set (. lights type-key) items)`; under a key of no kind the list is a new, empty one. -/
def setItems (lights : Lights N V) (typeKey : String) (items : List (Record N V)) : Lights N V :=
  if typeKey = "directional" then { lights with directional := items }
  else if typeKey = "point" then { lights with point := items }
  else if typeKey = "spot" then { lights with spot := items }
  else { lights with unsupported := typeKey :: lights.unsupported }

end Lights

section State
variable (A : Arithmetic N V)

/-- `normalize-state` without defaults, on a whole state or on none. -/
def normalizeState (state : Option (Lights N V)) (fillMissingLists : Bool) :
    Except String (Lights N V) := do
  let ambient ← normalizeAmbientRecord A ((state.map Lights.ambient).getD (defaultAmbient A))
    (defaultAmbient A)
  let directionalSource := match state with
    | some active => active.directional
    | none => if fillMissingLists = true then [defaultDirectional A] else []
  let directional ← normalizeList directionalSource "directional"
    (normalizeDirectional A (defaultDirectional A))
  let point ← normalizeList ((state.map Lights.point).getD []) "point" (normalizePoint A (defaultPoint A))
  let spot ← normalizeList ((state.map Lights.spot).getD []) "spot" (normalizeSpot A (defaultSpot A))
  pure
    { ambient := serializeAmbientRecord A ambient
      directional := serializeList directional (fun _ => false) (serializeDirectionalRecord A)
      point := serializeList point PointLight.transient (serializePointRecord A)
      spot := serializeList spot (fun _ => false) (serializeSpotRecord A)
      unsupported := [] }

def defaultState : Except String (Lights N V) := normalizeState A none true

def normalizeCompleteState (state : Lights N V) : Except String (Lights N V) :=
  normalizeState A (some state) false

/-- The default a kind's new light falls back on: the one at its index, else the first. -/
def pickListDefault (items : List (Record N V)) (idx : Nat) (fallback : Record N V) : Record N V :=
  (items[idx - 1]? <|> items.head?).getD fallback

def defaultRecordForType (typeKey id : String) (index : Nat) (defaults : Lights N V) :
    Except String (Record N V) :=
  let light : Record N V := .ofFields [("id", .string id)]
  if typeKey = "ambient" then
    serializeAmbientRecord A <$> normalizeAmbientRecord A light defaults.ambient
  else if typeKey = "directional" then
    serializeDirectionalRecord A <$>
      normalizeDirectional A (pickListDefault defaults.directional index (defaultDirectional A)) light index
  else if typeKey = "point" then
    serializePointRecord A <$>
      normalizePoint A (pickListDefault defaults.point index (defaultPoint A)) light index
  else if typeKey = "spot" then
    serializeSpotRecord A <$>
      normalizeSpot A (pickListDefault defaults.spot index (defaultSpot A)) light index
  else .error ("Unknown light type " ++ typeKey)

end State

end Space2.WorldData
