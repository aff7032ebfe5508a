import Space2.ReferenceLifecycle.References

/-!
# References on boards

A board item may show a subject, and its type follows what the subject stands for. Rewriting runs
before any identity is written, so it resolves through the identities the operation reserves as
well. Connectors stay while both their items do.
-/

namespace Space2.Board
open Base ReferenceLifecycle

variable {M : Type}

structure Item (M : Type) where
  id : String
  type : String
  subjectKey : Option Key
  fields : M
  deriving DecidableEq, Repr

structure Connector (M : Type) where
  id : String
  sourceItemId : String
  targetItemId : String
  kind : String
  semanticLinkId : Option String
  fields : M
  deriving DecidableEq, Repr

structure State (M : Type) where
  items : List (Item M)
  connectors : Option (List (Connector M))
  fields : M
  deriving DecidableEq, Repr

section Rewriting
variable (operation : Operation) (targetOf : Key → Option Key)

def plannedTarget (key : Key) : Except String Key := do
  let current ← resolveWith "board subject " (plannedTargetOf operation targetOf) key
  if operation.kind = .morph ∧ some current = operation.sourceKey then
    return operation.targetKey.getD current
  else return current

/-- Only strings and code have a type of their own. -/
def typeFor (target : Key) (type : String) : String :=
  match schemeOf target with
  | some "string-entity" => "string-entity"
  | some "code-entity" => "code-entity"
  | _ => type

def retired (item : Item M) : Bool :=
  operation.kind = .delete && item.subjectKey.any fun key => operation.retiring.contains key

def rewriteSubject (item : Item M) : Except String (Item M) :=
  match item.subjectKey with
  | none => return item
  | some key => do
    let target ← plannedTarget operation targetOf (rewrite operation key)
    return { item with subjectKey := some (rewrite operation key), type := typeFor target item.type }

def keepConnector (items : List (Item M)) (connector : Connector M) : Bool :=
  items.any (·.id = connector.sourceItemId) && items.any (·.id = connector.targetItemId) &&
    !(operation.kind = .delete && connector.kind = "semantic-link" &&
      connector.semanticLinkId.any fun id =>
        operation.retiring.contains (address "link-entity" id))

def rewriteState (state : State M) : Except String (State M) := do
  let items ← (state.items.filter fun item => !retired operation item).mapM
    (rewriteSubject operation targetOf)
  return { state with
    items := items
    connectors := some ((state.connectors.getD []).filter (keepConnector operation items)) }

end Rewriting

end Space2.Board
