import Mathlib

/-!
# The job system

Threads submit jobs, workers run them, and threads poll for the results. Every
step below is one critical section of the code, so that a run of steps is an
interleaving of the threads. A job has a number, which the code does not have,
to tell it from others when the 64-bit ids have wrapped around.
-/
namespace Space2.Jobs

inductive JobOwner where
  | engine
  | lua
deriving DecidableEq, Repr

structure JobRequest where
  id : UInt64
  kind : String
  payload : String
  owner : JobOwner
deriving DecidableEq, Repr

structure NativePayload where
  data : List UInt8
  alignment : Nat
  elementSize : Nat
deriving DecidableEq, Repr

structure JobResult where
  id : UInt64
  ok : Bool
  kind : String
  result : String
  error : String
  payload : NativePayload
  auxA : Int
  auxB : Int
  auxC : Int
  auxD : Int
  owner : JobOwner
deriving DecidableEq, Repr

def JobResult.blank : JobResult :=
  ⟨0, false, "", "", "", ⟨[], 1, 1⟩, 0, 0, 0, 0, .engine⟩

/-- What a handler does with a request. -/
inductive Outcome where
  | returned (record : JobResult)
  | threw (what : String)
  | threwOther
deriving DecidableEq, Repr

structure Numbered (α : Type) where
  number : Nat
  value : α
deriving DecidableEq, Repr

/-- A call of `submit` that has its id, before and after it has found the handler. -/
structure Submission where
  request : Numbered JobRequest
  known : Bool
deriving DecidableEq, Repr

/-- Where a worker's loop stands. -/
inductive Worker (H : Type) where
  | idle
  | popped (request : Numbered JobRequest)
  | found (request : Numbered JobRequest) (handler : Option H)
  | ran (result : Numbered JobResult)
deriving DecidableEq, Repr

structure State (H : Type) where
  workers : List (Worker H)
  handlers : List (String × H)
  nextId : UInt64
  submitting : List Submission
  jobQueue : List (Numbered JobRequest)
  completed : List (Numbered JobResult)
  /-- Every job so far, its number is its place. -/
  jobs : List JobRequest
  /-- The numbers of the results in the order of their completion. -/
  finished : List Nat
  /-- What each poll returned. -/
  polled : List (List (Numbered JobResult))
deriving DecidableEq, Repr

variable {H : Type}

/-! ## Submitting -/

def unknownKind (kind : String) : String := "Unknown job kind: " ++ kind

def JobRequest.immediate (request : JobRequest) : JobResult :=
  { JobResult.blank with
    id := request.id, kind := request.kind, error := unknownKind request.kind,
    owner := request.owner }

namespace State

def findHandler (s : State H) (kind : String) : Option H := s.handlers.lookup kind

/-- An empty handler is refused with an exception. -/
def registerHandler (s : State H) (kind : String) (handler : Option H) : State H :=
  match handler with
  | none => s
  | some handler =>
    { s with handlers := (kind, handler) :: s.handlers.filter fun entry => entry.1 ≠ kind }

def push (s : State H) (result : Numbered JobResult) : State H :=
  { s with completed := s.completed ++ [result], finished := s.finished ++ [result.number] }

def submit (s : State H) (kind payload : String) (owner : JobOwner) : State H :=
  let request : JobRequest := ⟨s.nextId, kind, payload, owner⟩
  { s with
    nextId := s.nextId + 1
    submitting := s.submitting ++ [⟨⟨s.jobs.length, request⟩, false⟩]
    jobs := s.jobs ++ [request] }

/-- A kind without handler gets its result at once. -/
def lookUp (s : State H) (i : Nat) : State H :=
  match s.submitting[i]? with
  | some ⟨request, false⟩ =>
    if (s.findHandler request.value.kind).isNone = true then
      { s with submitting := s.submitting.eraseIdx i }.push
        ⟨request.number, request.value.immediate⟩
    else { s with submitting := s.submitting.set i ⟨request, true⟩ }
  | _ => s

def enqueue (s : State H) (i : Nat) : State H :=
  match s.submitting[i]? with
  | some ⟨request, true⟩ =>
    { s with submitting := s.submitting.eraseIdx i, jobQueue := s.jobQueue ++ [request] }
  | _ => s

/-! ## Workers -/

def popJob (s : State H) (i : Nat) : State H :=
  match s.workers[i]?, s.jobQueue with
  | some .idle, request :: rest =>
    { s with workers := s.workers.set i (.popped request), jobQueue := rest }
  | _, _ => s

def copyHandler (s : State H) (i : Nat) : State H :=
  match s.workers[i]? with
  | some (.popped request) =>
    { s with workers := s.workers.set i (.found request (s.findHandler request.value.kind)) }
  | _ => s

end State

def JobRequest.prepared (request : JobRequest) : JobResult :=
  { JobResult.blank with id := request.id, kind := request.kind, ok := false }

/-- The handler's record replaces the prepared one, of which only the id is restored. -/
def JobRequest.result (request : JobRequest) (handler : Option H) (outcome : Outcome) : JobResult :=
  let result := match handler, outcome with
    | none, _ => { request.prepared with error := unknownKind request.kind }
    | some _, .returned record => { record with id := request.id }
    | some _, .threw what => { request.prepared with ok := false, error := what }
    | some _, .threwOther =>
      { request.prepared with ok := false, error := "Unhandled exception in job handler" }
  { result with owner := request.owner }

namespace State

def runHandler (s : State H) (i : Nat) (outcome : Outcome) : State H :=
  match s.workers[i]? with
  | some (.found request handler) =>
    { s with
      workers := s.workers.set i (.ran ⟨request.number, request.value.result handler outcome⟩) }
  | _ => s

def complete (s : State H) (i : Nat) : State H :=
  match s.workers[i]? with
  | some (.ran result) => { s with workers := s.workers.set i .idle }.push result
  | _ => s

end State

/-! ## Polling -/

/-- The loop of the filtered polls: what it takes while there is room, and what it leaves. -/
def collect {α : Type} (taken? : α → Bool) : Nat → List α → List α × List α
  | _, [] => ([], [])
  | 0, rest => ([], rest)
  | room + 1, a :: rest =>
    if taken? a = true then
      let (taken, left) := collect taken? room rest
      (a :: taken, left)
    else
      let (taken, left) := collect taken? (room + 1) rest
      (taken, a :: left)

abbrev Results := List (Numbered JobResult)

/-- What a poll returns, and what stays in `completed`. -/
def poll (maxResults : Nat) (completed : Results) : Results × Results :=
  if completed.isEmpty = true then ([], completed)
  else if maxResults = 0 ∨ completed.length ≤ maxResults then (completed, [])
  else (completed.take maxResults, completed.drop maxResults)

def pollMatching (matching : JobResult → Bool) (maxResults : Nat) (completed : Results) :
    Results × Results :=
  if completed.isEmpty = true then ([], completed)
  else
    collect (fun result => matching result.value)
      (if maxResults = 0 then completed.length else maxResults) completed

def pollKind (kind : String) : Nat → Results → Results × Results :=
  pollMatching fun result => decide (result.kind = kind)

def pollOwner (owner : JobOwner) : Nat → Results → Results × Results :=
  pollMatching fun result => decide (result.owner = owner)

def pollKindOwner (kind : String) (owner : JobOwner) : Nat → Results → Results × Results :=
  pollMatching fun result => decide (result.kind = kind) && decide (result.owner = owner)

inductive Poll where
  | all (maxResults : Nat)
  | kind (kind : String) (maxResults : Nat)
  | owner (owner : JobOwner) (maxResults : Nat)
  | kindOwner (kind : String) (owner : JobOwner) (maxResults : Nat)
deriving DecidableEq, Repr

namespace Poll

def run : Poll → Results → Results × Results
  | .all maxResults => poll maxResults
  | .kind wanted maxResults => pollKind wanted maxResults
  | .owner wanted maxResults => pollOwner wanted maxResults
  | .kindOwner wanted submitter maxResults => pollKindOwner wanted submitter maxResults

/-- The results that a poll asks for. -/
def asks : Poll → JobResult → Bool
  | .all _, _ => true
  | .kind wanted _, result => decide (result.kind = wanted)
  | .owner wanted _, result => decide (result.owner = wanted)
  | .kindOwner wanted submitter _, result =>
    decide (result.kind = wanted) && decide (result.owner = submitter)

def maxResults : Poll → Nat
  | .all maxResults | .kind _ maxResults | .owner _ maxResults | .kindOwner _ _ maxResults =>
    maxResults

end Poll

def State.poll (s : State H) (which : Poll) : State H :=
  let (taken, left) := which.run s.completed
  { s with completed := left, polled := s.polled ++ [taken] }

/-! ## Steps -/

/-- One critical section of a thread; the number tells which call of `submit` or which worker. -/
inductive Action (H : Type) where
  | registerHandler (kind : String) (handler : Option H)
  | submit (kind payload : String) (owner : JobOwner)
  | lookUp (i : Nat)
  | enqueue (i : Nat)
  | popJob (i : Nat)
  | copyHandler (i : Nat)
  | runHandler (i : Nat) (outcome : Outcome)
  | complete (i : Nat)
  | poll (which : Poll)

/-- A thread that cannot go on leaves the state as it is. -/
def step (s : State H) : Action H → State H
  | .registerHandler kind handler => s.registerHandler kind handler
  | .submit kind payload owner => s.submit kind payload owner
  | .lookUp i => s.lookUp i
  | .enqueue i => s.enqueue i
  | .popJob i => s.popJob i
  | .copyHandler i => s.copyHandler i
  | .runHandler i outcome => s.runHandler i outcome
  | .complete i => s.complete i
  | .poll which => s.poll which

def State.start (threads : Nat) (handlers : List (String × H)) : State H where
  workers := List.replicate threads .idle
  handlers := handlers
  nextId := 1
  submitting := []
  jobQueue := []
  completed := []
  jobs := []
  finished := []
  polled := []

end Space2.Jobs
