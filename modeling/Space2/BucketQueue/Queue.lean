import Space2.Base.TableSort
import Space2.Base.Runs

/-!
# The bucket queue

Nodes wait in buckets by depth, and `iterate` walks the list of depths while its
callback may change the queue. Which member of a bucket `next` gives is left open:
the loop is a system whose steps are the calls of the callback, each with the
member that is given and the requests the callback makes.
-/
namespace Space2.BucketQueue

open Space2.Base

structure Queue (N D : Type) where
  buckets : D → List N
  lookup : N → Option D
  depths : List D
  depthSet : D → Bool
  label : Option String
  activeDepth : Option D
  activeKey : Option N
  iterating : Bool

/-- How nodes and depths are written in a message. -/
structure Texts (N D : Type) where
  node : N → String
  depth : D → String

variable {N D : Type} [DecidableEq N] [LinearOrder D] [Zero D]

namespace Queue

def fresh (label : Option String) : Queue N D where
  buckets := fun _ => []
  lookup := fun _ => none
  depths := []
  depthSet := fun _ => false
  label := label
  activeDepth := none
  activeKey := none
  iterating := false

def mutationError (t : Texts N D) (q : Queue N D) (node : N) (depth : D) : String :=
  "BucketQueue " ++ q.label.getD "<unlabeled>" ++
    " callback mutated the active bucket at depth " ++ t.depth depth ++
    " (active=" ++ q.activeKey.elim "nil" t.node ++ " requested=" ++ t.node node ++
    "). Fix the caller; do not harden BucketQueue to mask layout/measure pass bugs."

def assertNotActiveBucketMutation (t : Texts N D) (q : Queue N D) (node : N) (depth : D) :
    Except String Unit :=
  if q.iterating = true ∧ q.activeDepth = some depth then
    if q.activeKey = some node then .ok () else .error (q.mutationError t node depth)
  else .ok ()

def ensureDepth (q : Queue N D) (depth : D) : Queue N D :=
  if q.depthSet depth = true then q
  else { q with
    depthSet := Function.update q.depthSet depth true
    depths := tableSort (fun a b => decide (a < b)) (q.depths ++ [depth]) }

def removed (q : Queue N D) (node : N) (depth : D) : Queue N D :=
  { q with
    buckets := Function.update q.buckets depth ((q.buckets depth).erase node)
    lookup := Function.update q.lookup node none }

def put (q : Queue N D) (node : N) (depth : D) : Queue N D :=
  { q with
    buckets := Function.update q.buckets depth ((q.buckets depth).insert node)
    lookup := Function.update q.lookup node (some depth) }

def remove (t : Texts N D) (q : Queue N D) (node : N) : Except String (Queue N D) :=
  match q.lookup node with
  | none => .ok q
  | some depth =>
    match q.assertNotActiveBucketMutation t node depth with
    | .error message => .error message
    | .ok () => .ok (q.removed node depth)

def enqueue (t : Texts N D) (q : Queue N D) (node : N) (depth : Option D) :
    Except String (Queue N D) :=
  let targetDepth := depth.getD 0
  if q.lookup node = some targetDepth then .ok q
  else if q.activeDepth ≠ none ∧
      (q.activeDepth = some targetDepth ∨ q.lookup node = q.activeDepth) then
    .error (q.mutationError t node ((q.lookup node).getD targetDepth))
  else
    match q.remove t node with
    | .error message => .error message
    | .ok rest => .ok ((rest.ensureDepth targetDepth).put node targetDepth)

def clear (q : Queue N D) : Queue N D :=
  { q with buckets := fun _ => [], lookup := fun _ => none, depths := [], depthSet := fun _ => false }

end Queue

/-- What a caller asks of the queue; a callback may also raise by itself. -/
inductive Request (N D : Type) where
  | enqueue (node : N) (depth : Option D)
  | remove (node : N)
  | fail (message : String)

def Request.perform (t : Texts N D) (q : Queue N D) : Request N D → Except String (Queue N D)
  | .enqueue node depth => q.enqueue t node depth
  | .remove node => q.remove t node
  | .fail message => .error message

/-- How often each node has been enqueued; an enqueue at the depth it is at does nothing. -/
def Request.credit (q : Queue N D) (credits : N → Nat) : Request N D → N → Nat
  | .enqueue node depth =>
    if q.lookup node = some (depth.getD 0) then credits
    else Function.update credits node (credits node + 1)
  | _ => credits

theorem credit_enqueue (q : Queue N D) (credits : N → Nat) (node : N) (depth : Option D) :
    Request.credit q credits (.enqueue node depth) =
      if q.lookup node = some (depth.getD 0) then credits
      else Function.update credits node (credits node + 1) := rfl

/-- The requests of one call, up to the first that raises. -/
def performAll (t : Texts N D) : List (Request N D) → Queue N D → (N → Nat) →
    Option String × Queue N D × (N → Nat)
  | [], q, credits => (none, q, credits)
  | request :: rest, q, credits =>
    match request.perform t q with
    | .error message => (some message, q, credits)
    | .ok q' => performAll t rest q' (request.credit q credits)

/-! ## The loop -/

/-- Where the loop stands: the position in the list of depths, and the members of the bucket
that `next` has not given yet. -/
structure Cursor (N D : Type) where
  position : Nat
  depth : D
  pending : List N

inductive Loop (N D : Type) where
  | idle
  | running (cursor : Cursor N D)
  | returned
  | raised (message : String)

structure System (N D : Type) where
  queue : Queue N D
  loop : Loop N D
  /-- The calls of the callback since the loop began, and how often each node was enqueued. -/
  visits : List (N × D)
  credits : N → Nat

/-- The first bucket with members, from a position on. -/
def seek (q : Queue N D) : Nat → List D → Option (Cursor N D)
  | _, [] => none
  | position, depth :: rest =>
    if q.buckets depth = [] then seek q (position + 1) rest
    else some ⟨position, depth, q.buckets depth⟩

namespace System

def fresh (label : Option String) : System N D := ⟨.fresh label, .idle, [], fun _ => 0⟩

def running (s : System N D) (cursor : Cursor N D) : System N D :=
  { s with
    queue := { s.queue with activeDepth := some cursor.depth, activeKey := none, iterating := true }
    loop := .running cursor }

def stopped (s : System N D) (loop : Loop N D) : System N D :=
  { s with
    queue := { s.queue with activeDepth := none, activeKey := none, iterating := false }
    loop := loop }

/-- The loop goes on from a position. -/
def goOn (s : System N D) (position : Nat) : System N D :=
  match seek s.queue position (s.queue.depths.drop position) with
  | none => s.stopped .returned
  | some cursor => s.running cursor

def begin (s : System N D) : System N D :=
  { s with visits := [], credits := fun n => if s.queue.lookup n = none then 0 else 1 }.goOn 0

/-- The callback is called on a member of the bucket. -/
def visit (t : Texts N D) (s : System N D) (cursor : Cursor N D) (node : N)
    (requests : List (Request N D)) : System N D :=
  let answer := performAll t requests { s.queue with activeKey := some node } s.credits
  let after : System N D :=
    { s with
      queue := answer.2.1
      visits := s.visits ++ [(node, cursor.depth)]
      credits := answer.2.2 }
  match answer.1 with
  | some message => after.stopped (.raised message)
  | none =>
    if cursor.pending.erase node = [] then after.goOn (cursor.position + 1)
    else after.running { cursor with pending := cursor.pending.erase node }

end System

inductive Action (N D : Type) where
  | request (request : Request N D)
  | ensureDepth (depth : D)
  | clear
  | iterate
  | visit (node : N) (requests : List (Request N D))

/-- The queue is used outside a loop; a request that raises leaves it as it is. -/
def System.use (t : Texts N D) (s : System N D) : Action N D → System N D
  | .request request => { s with queue := ((request.perform t s.queue).toOption).getD s.queue }
  | .ensureDepth depth => { s with queue := s.queue.ensureDepth depth }
  | .clear => { s with queue := s.queue.clear }
  | .iterate => s.begin
  | .visit _ _ => s

/-- While the loop runs only its callback is called, on a member of the active bucket. -/
def step (t : Texts N D) (s : System N D) (action : Action N D) : System N D :=
  match s.loop with
  | .running cursor =>
    match action with
    | .visit node requests => if node ∈ cursor.pending then s.visit t cursor node requests else s
    | _ => s
  | _ => s.use t action

/-! ## What a request can do -/

variable {t : Texts N D} {q q' : Queue N D}

omit [Zero D] in
theorem Queue.remove_cases {node : N} (h : q.remove t node = .ok q') :
    q.lookup node = none ∧ q' = q ∨
      ∃ depth, q.lookup node = some depth ∧ q' = q.removed node depth ∧
        (q.iterating = true → q.activeDepth = some depth → q.activeKey = some node) := by
  unfold Queue.remove at h
  cases hlookup : q.lookup node with
  | none =>
    rw [hlookup] at h
    exact .inl ⟨rfl, (Except.ok.inj h).symm⟩
  | some depth =>
    rw [hlookup] at h
    dsimp only at h
    cases hassert : q.assertNotActiveBucketMutation t node depth with
    | error message =>
      rw [hassert] at h
      cases h
    | ok u =>
      rw [hassert] at h
      refine .inr ⟨depth, rfl, (Except.ok.inj h).symm, fun hiterating hdepth => ?_⟩
      unfold Queue.assertNotActiveBucketMutation at hassert
      rw [if_pos ⟨hiterating, hdepth⟩] at hassert
      split_ifs at hassert with hkey
      exact hkey

theorem Queue.enqueue_cases {node : N} {depth : Option D} (h : q.enqueue t node depth = .ok q') :
    q.lookup node = some (depth.getD 0) ∧ q' = q ∨
      q.lookup node ≠ some (depth.getD 0) ∧ q.activeDepth ≠ some (depth.getD 0) ∧
        (q.activeDepth ≠ none → q.lookup node ≠ q.activeDepth) ∧
        ∃ rest, q.remove t node = .ok rest ∧
          q' = (rest.ensureDepth (depth.getD 0)).put node (depth.getD 0) := by
  unfold Queue.enqueue at h
  dsimp only at h
  split_ifs at h with hsame hblocked
  · exact .inl ⟨hsame, (Except.ok.inj h).symm⟩
  · right
    refine ⟨hsame, fun hactive => hblocked ⟨?_, .inl hactive⟩, fun hsome hother =>
      hblocked ⟨hsome, .inr hother⟩, ?_⟩
    · rw [hactive]
      exact Option.some_ne_none _
    · cases hremove : q.remove t node with
      | error message =>
        rw [hremove] at h
        cases h
      | ok rest =>
        rw [hremove] at h
        exact ⟨rest, rfl, (Except.ok.inj h).symm⟩

/-- The fields that only the loop sets. -/
structure SameLoop (q q' : Queue N D) : Prop where
  activeDepth : q'.activeDepth = q.activeDepth
  activeKey : q'.activeKey = q.activeKey
  iterating : q'.iterating = q.iterating

omit [Zero D] in
theorem sameLoop_remove {node : N} (h : q.remove t node = .ok q') : SameLoop q q' := by
  rcases Queue.remove_cases h with ⟨-, rfl⟩ | ⟨depth, -, rfl, -⟩
  · exact ⟨rfl, rfl, rfl⟩
  · exact ⟨rfl, rfl, rfl⟩

omit [DecidableEq N] [Zero D] in
theorem sameLoop_ensureDepth (q : Queue N D) (depth : D) : SameLoop q (q.ensureDepth depth) := by
  unfold Queue.ensureDepth
  split_ifs <;> exact ⟨rfl, rfl, rfl⟩

theorem sameLoop_perform {request : Request N D} (h : request.perform t q = .ok q') :
    SameLoop q q' := by
  cases request with
  | enqueue node depth =>
    rcases Queue.enqueue_cases h with ⟨-, rfl⟩ | ⟨-, -, -, rest, hremove, rfl⟩
    · exact ⟨rfl, rfl, rfl⟩
    · obtain ⟨hdepth, hkey, hiterating⟩ := sameLoop_remove hremove
      obtain ⟨hdepth', hkey', hiterating'⟩ := sameLoop_ensureDepth rest (depth.getD 0)
      exact ⟨hdepth'.trans hdepth, hkey'.trans hkey, hiterating'.trans hiterating⟩
  | remove node => exact sameLoop_remove h
  | fail message => cases h

end Space2.BucketQueue
