import Space2.ReferenceLifecycle.Records
import Space2.ReferenceLifecycle.References

/-!
# Three resolvers of identities

A plan and a migration look an identity up in the inventory of the identity records; the store asks
for the entity of an id, and the path of a record refuses an id that is no filename component.
Otherwise the three make the same tests in the same order, so they differ on the chains that end at
a key with such an id and nowhere else.
-/

namespace Space2.ReferenceLifecycle
open Base

variable {M : Type}

/-- The records of a store: one for each id, under ids that are filename components. -/
structure IdentityRecords (M : Type) where
  records : List (Identity M)
  valid : ∀ record ∈ records, ValidId record.id
  distinct : (records.map Identity.id).Nodup

/-- The inventory of the identities owner: each record under its address. -/
def IdentityRecords.inventory (store : IdentityRecords M) : List (Key × Identity M) :=
  store.records.map fun record => (address "identity" record.id, record)

/-- `(. records current)` and its target key -/
def IdentityRecords.target (store : IdentityRecords M) (key : Key) : Option Key :=
  (store.inventory.find? (·.1 = key)).map (·.2.targetKey)

/-- `resolve` of a plan, over the records of the inventory -/
def planResolve (store : IdentityRecords M) (key : Key) : Except String Key :=
  resolveWith "" store.target key

def migrationResolve (store : IdentityRecords M) (key : Key) : Except String Key :=
  resolveWith "migration " store.target key

/-- `(string.sub current 10)` -/
def identityId (key : Key) : String := String.ofList (key.toList.drop 9)

/-- Every id goes through the path of its record. -/
def getEntity (store : IdentityRecords M) (id : String) : Except String (Option (Identity M)) := do
  let id ← requireId id
  return store.records.find? (·.id = id)

/-- The terminal key and the chain of identities met. `hops` is what `max-depth` leaves after
`depth`; `visited` is the chain so far, the last key first. -/
def resolveKeyFrom (store : IdentityRecords M) :
    Nat → List Key → Key → Except String (Key × List Key)
  | hops, visited, current =>
    if isIdentity current = true then do
      ensure (current ∉ visited) ("resolve-key identity cycle detected at " ++ current)
      let entity ← getEntity store (identityId current)
      match (entity.map Identity.targetKey).filter (· ≠ "") with
      | none => return (current, (current :: visited).reverse)
      | some target =>
        match hops with
        | 0 => throw ("resolve-key identity depth exhausted at " ++ current)
        | hops + 1 => resolveKeyFrom store hops (current :: visited) target
    else return (current, visited.reverse)

def resolveKey (store : IdentityRecords M) (max_depth : Nat) (key : Key) :
    Except String (Key × List Key) :=
  resolveKeyFrom store max_depth [] key

/-- An identity key that the store can look up, or a key of another scheme. -/
def Addressable (key : Key) : Prop := isIdentity key = true → ValidId (identityId key)

instance (key : Key) : Decidable (Addressable key) := by unfold Addressable; infer_instance

section Lookups
variable {store : IdentityRecords M} {key other : Key}

theorem address_identityId (h : isIdentity key = true) :
    address "identity" (identityId key) = key := by
  obtain ⟨id, rfl⟩ := isIdentity_iff.mp h
  have hdrop : (address "identity" id).toList.drop 9 = id.toList := by
    rw [toList_address]
    rfl
  rw [identityId, hdrop, String.ofList_toList]

/-- The inventory and the store find the record of a key alike. -/
theorem target_eq (h : isIdentity key = true) :
    store.target key = (store.records.find? (·.id = identityId key)).map Identity.targetKey := by
  have hsame : ∀ record : Identity M,
      address "identity" record.id = key ↔ record.id = identityId key := by
    intro record
    constructor
    · intro heq
      exact address_injective (heq.trans (address_identityId h).symm)
    · intro heq
      rw [heq, address_identityId h]
  simp only [IdentityRecords.target, IdentityRecords.inventory, List.find?_map, Option.map_map,
    Function.comp_def, hsame]

/-- No record lies under an id the store refuses. -/
theorem target_of_not_valid (h : isIdentity key = true) (hid : ¬ ValidId (identityId key)) :
    store.target key = none := by
  rw [target_eq h, Option.map_eq_none_iff, List.find?_eq_none]
  intro record hrecord hsame
  exact hid (of_decide_eq_true hsame ▸ store.valid record hrecord)

theorem getEntity_eq_ok {id : String} {entity : Option (Identity M)} :
    getEntity store id = .ok entity ↔ ValidId id ∧ store.records.find? (·.id = id) = entity := by
  simp only [getEntity, bind_eq_ok, requireId_eq_ok, pure_eq_ok]
  constructor
  · rintro ⟨_, ⟨hvalid, rfl⟩, hfound⟩
    exact ⟨hvalid, hfound⟩
  · rintro ⟨hvalid, hfound⟩
    exact ⟨id, ⟨hvalid, rfl⟩, hfound⟩

end Lookups

section Agreement
variable {store : IdentityRecords M} {hops less : Nat} {visited : List Key} {current t : Key}
  {result : Key × List Key}

/-- What a key is followed to next: its target in the record the store would find. -/
theorem next_eq_entity (h : isIdentity current = true) :
    (identityAliases store.target).next current =
      ((store.records.find? (·.id = identityId current)).map Identity.targetKey).filter (· ≠ "") := by
  simp only [identityAliases, if_pos h, target_eq h]

theorem resolveKeyFrom_other (h : isIdentity current = false) :
    resolveKeyFrom store hops visited current = .ok (current, visited.reverse) := by
  unfold resolveKeyFrom
  simp [h, pure, Except.pure]

/-- A chain ends at an identity that names nothing and whose id the store accepts. -/
theorem resolveKeyFrom_last (h : isIdentity current = true)
    (hnone : (identityAliases store.target).next current = none) :
    resolveKeyFrom store hops visited current = .ok result ↔
      current ∉ visited ∧ ValidId (identityId current) ∧
        result = (current, (current :: visited).reverse) := by
  rw [next_eq_entity h] at hnone
  unfold resolveKeyFrom
  simp only [if_pos h, bind_eq_ok, ensure_eq_ok, exists_const, getEntity_eq_ok]
  constructor
  · rintro ⟨hnew, _, ⟨hvalid, rfl⟩, hrest⟩
    simp only [hnone, pure_eq_ok] at hrest
    exact ⟨hnew, hvalid, hrest.symm⟩
  · rintro ⟨hnew, hvalid, rfl⟩
    refine ⟨hnew, _, ⟨hvalid, rfl⟩, ?_⟩
    simp only [hnone, pure_eq_ok]

/-- An identity with a target has a record, so its id is accepted. -/
theorem resolveKeyFrom_hop (h : isIdentity current = true)
    (hnext : (identityAliases store.target).next current = some t) :
    resolveKeyFrom store hops visited current = .ok result ↔
      current ∉ visited ∧ ∃ less, hops = less + 1 ∧
        resolveKeyFrom store less (current :: visited) t = .ok result := by
  have hvalid : ValidId (identityId current) := by
    by_contra hrefused
    have htarget : store.target current = none := target_of_not_valid h hrefused
    rw [(next_eq_some.mp hnext).2.1] at htarget
    cases htarget
  rw [next_eq_entity h] at hnext
  conv_lhs => unfold resolveKeyFrom
  simp only [if_pos h, bind_eq_ok, ensure_eq_ok, exists_const, getEntity_eq_ok, hvalid, true_and,
    exists_eq_left', hnext]
  cases hops with
  | zero => simp
  | succ hops => simp

/-- The store follows the chain of a plan and refuses its end when that has no valid id. -/
theorem resolveKeyFrom_eq_ok :
    (∃ chain, resolveKeyFrom store hops visited current = .ok (t, chain)) ↔
      (identityAliases store.target).followFrom hops visited current = .ok t ∧ Addressable t := by
  induction hops using Nat.strongRecOn generalizing visited current with
  | ind hops ih =>
    cases hid : isIdentity current with
    | false =>
      rw [resolveKeyFrom_other hid, Aliases.followFrom_other hid]
      constructor
      · rintro ⟨chain, hchain⟩
        obtain ⟨rfl, -⟩ := Prod.mk.inj (Except.ok.inj hchain)
        refine ⟨rfl, ?_⟩
        intro habsurd
        rw [hid] at habsurd
        cases habsurd
      · rintro ⟨hsame, -⟩
        exact ⟨visited.reverse, by rw [Except.ok.inj hsame]⟩
    | true =>
      cases hnext : (identityAliases store.target).next current with
      | none =>
        simp only [resolveKeyFrom_last hid hnext, Aliases.followFrom_last hid hnext, Prod.mk.injEq]
        constructor
        · rintro ⟨chain, hnew, hvalid, rfl, -⟩
          exact ⟨⟨hnew, rfl⟩, fun _ => hvalid⟩
        · rintro ⟨⟨hnew, rfl⟩, hvalid⟩
          exact ⟨_, hnew, hvalid hid, rfl, rfl⟩
      | some target =>
        simp only [resolveKeyFrom_hop hid hnext, Aliases.followFrom_hop hid hnext]
        constructor
        · rintro ⟨chain, hnew, less, rfl, hrest⟩
          obtain ⟨hfollow, haddressable⟩ := (ih less (Nat.lt_succ_self less)).mp ⟨chain, hrest⟩
          exact ⟨⟨hnew, less, rfl, hfollow⟩, haddressable⟩
        · rintro ⟨⟨hnew, less, rfl, hfollow⟩, haddressable⟩
          obtain ⟨chain, hrest⟩ := (ih less (Nat.lt_succ_self less)).mpr ⟨hfollow, haddressable⟩
          exact ⟨chain, hnew, less, rfl, hrest⟩

end Agreement

/-- The terminal key the store returns with its default depth. -/
def storeTerminal (store : IdentityRecords M) (key : Key) : Option Key :=
  (resolveKey store maxDepth key).toOption.map Prod.fst

/-- All three return this key, or all three fail. -/
def Agree (store : IdentityRecords M) (key : Key) : Prop :=
  storeTerminal store key = (planResolve store key).toOption ∧
    storeTerminal store key = (migrationResolve store key).toOption

instance (store : IdentityRecords M) (key : Key) : Decidable (Agree store key) := by
  unfold Agree
  infer_instance

end Space2.ReferenceLifecycle
