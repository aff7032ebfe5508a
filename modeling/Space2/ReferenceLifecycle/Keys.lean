import Space2.Base.Checks

/-!
# Graph keys

A key is a string `scheme:id`. The patterns of the source are read on the list of characters:
`^([^:]+):` gives the scheme, `^([^:]+):(.+)$` the scheme and a nonempty id. A record id is one
filename component.
-/

namespace Space2.ReferenceLifecycle
open Base

abbrev Key := String

def beforeColon (text : String) : List Char := text.toList.takeWhile (· ≠ ':')
def fromColon (text : String) : List Char := text.toList.dropWhile (· ≠ ':')

/-- `string.match key "^([^:]+):"` -/
def schemeOf (key : Key) : Option String :=
  if beforeColon key = [] ∨ fromColon key = [] then none else some (String.ofList (beforeColon key))

/-- `string.match key "^([^:]+):(.+)$"` -/
def splitKey (key : Key) : Option (String × String) :=
  if beforeColon key = [] ∨ (fromColon key).tail = [] then none
  else some (String.ofList (beforeColon key), String.ofList (fromColon key).tail)

/-- `string.match id "^([^:]+):([^:]+)$"` -/
def splitStep (id : String) : Option (String × String) :=
  match splitKey id with
  | some (definition, step) => if ':' ∈ step.toList then none else some (definition, step)
  | none => none

/-- `(= (string.sub key 1 9) "identity:")` -/
def isIdentity (key : Key) : Bool := key.toList.take 9 = "identity:".toList

def address (scheme id : String) : Key := scheme ++ ":" ++ id

/-- `[/\\:%z]` -/
def separator (c : Char) : Bool := c = '/' || c = '\\' || c = ':' || c = '\x00'

def ValidId (id : String) : Prop :=
  id ≠ "" ∧ id ≠ "." ∧ id ≠ ".." ∧ id.toList.any separator = false

instance (id : String) : Decidable (ValidId id) := by unfold ValidId; infer_instance

/-- Owning record ids are single filename components, not filesystem paths. -/
def requireId (id : String) : Except String String := do
  ensure (ValidId id) "invalid record id"
  return id

/-- The schemes a lifecycle operation may name. -/
inductive Scheme
  | stringEntity | codeEntity | listEntity | dictEntity | linkEntity | identity | notebook
  | workflowStep
  deriving DecidableEq, Repr

def Scheme.name : Scheme → String
  | .stringEntity => "string-entity"
  | .codeEntity => "code-entity"
  | .listEntity => "list-entity"
  | .dictEntity => "dict-entity"
  | .linkEntity => "link-entity"
  | .identity => "identity"
  | .notebook => "notebook"
  | .workflowStep => "workflow-step"

def Scheme.all : List Scheme :=
  [.stringEntity, .codeEntity, .listEntity, .dictEntity, .linkEntity, .identity, .notebook,
    .workflowStep]

def Scheme.ofName (name : String) : Option Scheme := Scheme.all.find? (·.name = name)

/-- A supported lifecycle key, split into its scheme and id. -/
def target (key : Option Key) : Except String (Scheme × String) := do
  match key with
  | none => throw "unsupported lifecycle target"
  | some key =>
    match splitKey key with
    | none => throw ("unsupported lifecycle target: " ++ key)
    | some (name, id) =>
      match Scheme.ofName name with
      | none => throw ("unsupported lifecycle target: " ++ key)
      | some .workflowStep =>
        match splitStep id with
        | none => throw ("unsupported workflow-step target: " ++ key)
        | some (definition, step) =>
          let _ ← requireId definition
          let _ ← requireId step
          return (.workflowStep, id)
      | some scheme =>
        let _ ← requireId id
        return (scheme, id)

theorem requireId_eq_ok {id id' : String} : requireId id = .ok id' ↔ ValidId id ∧ id = id' := by
  simp [requireId]

section Addresses

theorem toList_address (scheme id : String) :
    (address scheme id).toList = scheme.toList ++ ':' :: id.toList := by
  simp [address]

theorem beforeColon_address {scheme : String} (h : ':' ∉ scheme.toList) (id : String) :
    beforeColon (address scheme id) = scheme.toList := by
  have hall : ∀ c ∈ scheme.toList, decide (c ≠ ':') = true := by
    intro c hc
    simpa using fun he : c = ':' => h (he ▸ hc)
  rw [beforeColon, toList_address, List.takeWhile_append_of_pos hall]
  simp

theorem fromColon_address {scheme : String} (h : ':' ∉ scheme.toList) (id : String) :
    fromColon (address scheme id) = ':' :: id.toList := by
  have hall : ∀ c ∈ scheme.toList, decide (c ≠ ':') = true := by
    intro c hc
    simpa using fun he : c = ':' => h (he ▸ hc)
  rw [fromColon, toList_address, List.dropWhile_append_of_pos hall]
  simp

theorem schemeOf_address {scheme : String} (h : ':' ∉ scheme.toList) (hne : scheme ≠ "")
    (id : String) : schemeOf (address scheme id) = some scheme := by
  have hs : scheme.toList ≠ [] := by simpa using hne
  simp [schemeOf, beforeColon_address h, fromColon_address h, hne]

theorem splitKey_address {scheme id : String} (h : ':' ∉ scheme.toList) (hne : scheme ≠ "")
    (hid : id ≠ "") : splitKey (address scheme id) = some (scheme, id) := by
  simp [splitKey, beforeColon_address h, fromColon_address h, hne, hid]

theorem address_injective {scheme id id' : String} (h : address scheme id = address scheme id') :
    id = id' := by
  have hl := congrArg String.toList h
  rw [toList_address, toList_address] at hl
  exact String.toList_inj.mp (List.cons.inj (List.append_cancel_left hl)).2

/-- Addresses of different schemes differ: the scheme is what stands before the first colon. -/
theorem address_scheme {scheme scheme' id id' : String} (h : ':' ∉ scheme.toList)
    (h' : ':' ∉ scheme'.toList) (he : address scheme id = address scheme' id') :
    scheme = scheme' := by
  have hb := congrArg beforeColon he
  rw [beforeColon_address h, beforeColon_address h'] at hb
  exact String.toList_inj.mp hb

theorem isIdentity_iff {key : Key} :
    isIdentity key = true ↔ ∃ id, key = address "identity" id := by
  have hinit : "identity:".toList = "identity".toList ++ [':'] := by decide
  have hlength : "identity:".toList.length = 9 := by decide
  constructor
  · intro h
    refine ⟨String.ofList (key.toList.drop 9), String.toList_inj.mp ?_⟩
    have htake : key.toList.take 9 = "identity:".toList := of_decide_eq_true h
    rw [toList_address, String.toList_ofList, ← List.take_append_drop 9 key.toList, htake,
      List.drop_left' hlength, hinit]
    simp
  · rintro ⟨id, rfl⟩
    apply decide_eq_true
    rw [toList_address, ← List.singleton_append, ← List.append_assoc, ← hinit]
    exact List.take_left' hlength

@[simp] theorem isIdentity_identity (id : String) : isIdentity (address "identity" id) = true :=
  isIdentity_iff.mpr ⟨id, rfl⟩

theorem isIdentity_of_scheme {key : Key} {scheme : String} (h : schemeOf key = some scheme)
    (hne : scheme ≠ "identity") : isIdentity key = false := by
  apply Bool.eq_false_iff.mpr
  intro hi
  obtain ⟨id, rfl⟩ := isIdentity_iff.mp hi
  rw [schemeOf_address (by decide) (by decide)] at h
  exact hne (Option.some.inj h).symm

theorem schemeOf_of_splitKey {key : Key} {name id : String} (h : splitKey key = some (name, id)) :
    schemeOf key = some name := by
  simp only [splitKey] at h
  split_ifs at h with hnone
  obtain ⟨hbefore, hafter⟩ := not_or.mp hnone
  obtain ⟨rfl, -⟩ := Prod.mk.inj (Option.some.inj h)
  have hfrom : fromColon key ≠ [] := fun hempty => hafter (by simp [hempty])
  simp [schemeOf, hbefore, hfrom]

theorem schemeOf_of_target {key : Key} {pair : Scheme × String}
    (h : target (some key) = .ok pair) : schemeOf key = some pair.1.name := by
  simp only [target] at h
  split at h
  next => simp at h
  next name id hsplit =>
    rw [schemeOf_of_splitKey hsplit]
    cases hname : Scheme.ofName name with
    | none => simp [hname] at h
    | some scheme =>
      have hfound : scheme.name = name := by simpa using List.find?_some hname
      have hpair : pair.1 = scheme := by
        cases scheme <;> simp only [hname] at h <;> try split at h
        all_goals simp only [bind_eq_ok, pure_eq_ok, throw_eq_ok] at h
        all_goals grind
      rw [hpair, hfound]

end Addresses

end Space2.ReferenceLifecycle
