import Space2.Base.AliasChain
import Space2.ReferenceLifecycle.Intent

/-!
# Following references

A key of the scheme `identity` stands for the target its record names; an identity that is missing
or names nothing stands for itself. Every resolver of the source follows at most 32 identities and
differs from the others in its messages only.
-/

namespace Space2.ReferenceLifecycle
open Base

/-- `targetOf` is the target key in the record of an identity. -/
def identityAliases (targetOf : Key → Option Key) : Aliases Key where
  isAlias := isIdentity
  next key := if isIdentity key = true then (targetOf key).filter (· ≠ "") else none
  only key h := by simp [h]

def maxDepth : Nat := 32

def resolveWith (subject : String) (targetOf : Key → Option Key) (key : Key) :
    Except String Key :=
  ((identityAliases targetOf).follow maxDepth key).mapError fun
    | .cycle current => subject ++ "identity cycle: " ++ current
    | .exhausted current => subject ++ "identity depth exhausted: " ++ current

/-- The last rewrite of the key; a key without one stays. -/
def rewrite (operation : Operation) (key : Key) : Key :=
  match (operation.referencePlan.rewrites.filter (·.fromKey = key)).getLast? with
  | some mapping => mapping.toKey
  | none => key

def ReservedIdentity.address (identity : ReservedIdentity) : Key :=
  ReferenceLifecycle.address "identity" identity.id

/-- The target of a reserved identity. -/
def reservedTarget (operation : Operation) (key : Key) : Option Key :=
  (operation.referencePlan.identities.filter (·.address = key)).getLast?.map (·.targetKey)

/-- The identities that are reserved in front of those that exist. -/
def plannedTargetOf (operation : Operation) (targetOf : Key → Option Key) (key : Key) :
    Option Key :=
  reservedTarget operation key <|> targetOf key

variable {targetOf : Key → Option Key} {operation : Operation} {key other : Key}

theorem next_eq_some : (identityAliases targetOf).next key = some other ↔
    isIdentity key = true ∧ targetOf key = some other ∧ other ≠ "" := by
  by_cases h : isIdentity key = true <;> simp [identityAliases, h, Option.filter_eq_some_iff]

theorem next_of_not_identity (h : isIdentity key = false) :
    (identityAliases targetOf).next key = none :=
  (identityAliases targetOf).only key h

theorem resolveWith_eq_ok {subject : String} :
    resolveWith subject targetOf key = .ok other ↔
      (identityAliases targetOf).follow maxDepth key = .ok other :=
  mapError_eq_ok

theorem rewrite_of_no_rewrites (h : operation.referencePlan.rewrites = []) :
    rewrite operation key = key := by
  simp [rewrite, h]

theorem rewrite_of_not_mem (h : ∀ mapping ∈ operation.referencePlan.rewrites, mapping.fromKey ≠ key) :
    rewrite operation key = key := by
  have hnone : operation.referencePlan.rewrites.filter (·.fromKey = key) = [] := by
    simpa using h
  simp [rewrite, hnone]

/-- A key is left alone or rewritten as some mapping says. -/
theorem rewrite_cases (operation : Operation) (key : Key) :
    (rewrite operation key = key ∧
      ∀ mapping ∈ operation.referencePlan.rewrites, mapping.fromKey ≠ key) ∨
    ∃ mapping ∈ operation.referencePlan.rewrites, mapping.fromKey = key ∧
      rewrite operation key = mapping.toKey := by
  cases hlast : (operation.referencePlan.rewrites.filter (·.fromKey = key)).getLast? with
  | none =>
    left
    have hnone := List.getLast?_eq_none_iff.mp hlast
    exact ⟨by simp [rewrite, hlast], by simpa using hnone⟩
  | some mapping =>
    right
    have hmem := List.mem_of_getLast? hlast
    obtain ⟨hmapping, hkey⟩ := List.mem_filter.mp hmem
    exact ⟨mapping, hmapping, by simpa using hkey, by simp [rewrite, hlast]⟩

end Space2.ReferenceLifecycle
