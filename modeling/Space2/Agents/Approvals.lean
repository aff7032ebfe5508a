import Mathlib.Data.List.Basic
import Space2.Base.Checks
import Space2.Base.Runs
import Space2.Base.TableSort

/-!
# Approvals of risky tool calls

A request for a risk is answered by the policy or by a grant that an earlier approval left, or it
waits for the user. Requests for the same risk, tool, source and arguments wait together. Its
callbacks and the listeners may call back before they return, so what waits for one of them to
return stands on a stack, and a run is any order of calls, returns and errors.
-/
namespace Space2.Approvals
open Base

/-- What a request is about. -/
structure Context where
  tool : Option String
  source : Option String
  argsCanonical : Option String
  argsHash : Option String
  grantOnApprove : Bool
deriving DecidableEq, Repr

/-- A call of `request-risk`. Its callbacks are named by the number of the calls before it. -/
structure Asked where
  risk : String
  reason : String
  context : Context
deriving DecidableEq, Repr

def validRisks : List String :=
  ["normal", "filesystem-read", "filesystem-write", "destructive", "shell"]

/-- The policy of a risk: one action, or a table with a default and the actions of tool sources. -/
inductive RiskPolicy where
  | action (name : String)
  | table (default : Option String) (tools : List (String × String))
deriving DecidableEq, Repr

def requestKey (risk : String) (context : Context) : String :=
  "\n".intercalate [risk, context.tool.getD "", context.source.getD "",
    context.argsCanonical.getD "", context.argsHash.getD ""]

def Asked.key (call : Asked) : String := requestKey call.risk call.context

section Policy
variable (policy : String → Option RiskPolicy)

def toolAction (riskPolicy : Option RiskPolicy) (source : Option String) : Option String :=
  match riskPolicy, source with
  | some (.table _ tools), some source => tools.lookup source
  | _, _ => none

def policyAction (riskPolicy : Option RiskPolicy) (source : Option String) : String :=
  (toolAction riskPolicy source).getD <|
    match riskPolicy with
    | some (.table default _) => default.getD "ask"
    | some (.action name) => name
    | none => "ask"

inductive CheckState where
  | approved
  | denied
  | needsApproval
deriving DecidableEq, Repr

def checkRisk (risk : String) (context : Context) : Except String CheckState := do
  ensure (risk ∈ validRisks) ("unknown risk level: " ++ risk)
  if risk = "normal" then pure .approved
  else
    match policyAction (policy risk) context.source with
    | "auto" => pure .approved
    | "deny" => pure .denied
    | _ => pure .needsApproval

end Policy

/-- What a callback is called with. -/
inductive Answer where
  | byPolicy (approved : Bool)
  | byGrant (always : Bool)
  | byUser (requestId : Nat) (approved : Bool)
deriving DecidableEq, Repr

def Answer.approved : Answer → Bool
  | .byPolicy approved => approved
  | .byGrant _ => true
  | .byUser _ approved => approved

/-- A request that waits for the user, with the calls that wait for it. -/
structure Request where
  call : Asked
  waiters : List Nat
  resolved : Bool
deriving DecidableEq, Repr

/-- What the user decides. -/
inductive Verdict where
  | deny
  | approve (always : Bool)
deriving DecidableEq, Repr

def Verdict.approves : Verdict → Bool
  | .deny => false
  | .approve _ => true

/-- What waits for the function that runs now. -/
inductive Frame where
  /-- nothing -/
  | callback
  /-- the loop over the waiters of a request -/
  | waiters (rest : List Nat) (answer : Answer)
deriving DecidableEq, Repr

structure AgentApprovals where
  /-- every call so far that was not refused, the last one last -/
  asked : List Asked
  /-- every request so far; the id of a request counts the requests before it -/
  requests : List Request
  pendingRequests : List Nat
  pendingByKey : List (String × Nat)
  approvalGrants : String → Nat
  alwaysGrants : List String
  /-- the keys in the grants file -/
  savedGrants : List String
  /-- every verdict so far that resolved its request -/
  verdicts : List (Nat × Verdict)
  /-- the innermost first -/
  frames : List Frame
  /-- every callback so far with its answer, the last one last -/
  fired : List (Nat × Answer)

namespace AgentApprovals

def fire (s : AgentApprovals) (waiter : Nat) (answer : Answer) : AgentApprovals :=
  { s with frames := .callback :: s.frames, fired := s.fired ++ [(waiter, answer)] }

/-- The listeners of `requested`. -/
def emit (s : AgentApprovals) : AgentApprovals := { s with frames := .callback :: s.frames }

def sortedGrantKeys (s : AgentApprovals) : List String := tableSort (· < ·) s.alwaysGrants

/-- Which grant a call uses up, and what is left. -/
def consumeGrant (s : AgentApprovals) (key : String) : Option (Bool × AgentApprovals) :=
  if key ∈ s.alwaysGrants then some (true, s)
  else if 0 < s.approvalGrants key then
    some (false, { s with
      approvalGrants := Function.update s.approvalGrants key (s.approvalGrants key - 1) })
  else none

def addRequest (s : AgentApprovals) (call : Asked) (waiter : Nat) : AgentApprovals :=
  { s with
    requests := s.requests ++ [⟨call, [waiter], false⟩]
    pendingRequests := s.requests.length :: s.pendingRequests
    pendingByKey := (call.key, s.requests.length) :: s.pendingByKey }

def addWaiter (s : AgentApprovals) (request waiter : Nat) : AgentApprovals :=
  { s with requests := s.requests.modify request fun held =>
      { held with waiters := held.waiters ++ [waiter] } }

/-- A call that the policy leaves to the user. -/
def askUser (s : AgentApprovals) (call : Asked) (waiter : Nat) : AgentApprovals :=
  match s.consumeGrant call.key with
  | some (always, left) => left.fire waiter (.byGrant always)
  | none =>
    match s.pendingByKey.lookup call.key with
    | some request => (s.addWaiter request waiter).emit
    | none => (s.addRequest call waiter).emit

def requestRisk (policy : String → Option RiskPolicy) (s : AgentApprovals) (call : Asked) :
    AgentApprovals :=
  match checkRisk policy call.risk call.context with
  | .error _ => s
  | .ok state =>
    let next := { s with asked := s.asked ++ [call] }
    match state with
    | .approved => next.fire s.asked.length (.byPolicy true)
    | .denied => next.fire s.asked.length (.byPolicy false)
    | .needsApproval => next.askUser call s.asked.length

/-- The next waiter is called; after the last one the listeners are. -/
def callWaiters (s : AgentApprovals) (answer : Answer) : List Nat → AgentApprovals
  | [] => s.emit
  | waiter :: rest =>
    { s with frames := .waiters rest answer :: s.frames, fired := s.fired ++ [(waiter, answer)] }

def settle (s : AgentApprovals) (id : Nat) (request : Request) (verdict : Verdict) :
    AgentApprovals :=
  { s with
    requests := s.requests.modify id fun held => { held with resolved := true }
    pendingRequests := s.pendingRequests.filter (· ≠ id)
    pendingByKey := s.pendingByKey.filter (·.1 ≠ request.call.key)
    verdicts := s.verdicts ++ [(id, verdict)] }

/-- `grant-key`; `saves` says whether the grants file can be written. What is granted stays granted
when the file cannot be written. -/
def grantKey (s : AgentApprovals) (key : String) (always saves : Bool) :
    Except AgentApprovals AgentApprovals :=
  if always = true then
    let next := { s with
      alwaysGrants := if key ∈ s.alwaysGrants then s.alwaysGrants else s.alwaysGrants ++ [key] }
    if saves = true then .ok { next with savedGrants := next.sortedGrantKeys } else .error next
  else
    .ok { s with
      approvalGrants := Function.update s.approvalGrants key (s.approvalGrants key + 1) }

/-- The grant of a verdict, for a request that asks for one; `.error` is the state it raises in. -/
def grantVerdict (s : AgentApprovals) (call : Asked) (verdict : Verdict) (saves : Bool) :
    Except AgentApprovals AgentApprovals :=
  match verdict with
  | .deny => .ok s
  | .approve always =>
    if call.context.grantOnApprove = true then
      -- "always approval requires exact tool arguments"
      if always = true ∧ call.context.argsHash = none then .error s
      else s.grantKey call.key always saves
    else .ok s

/-- `finish`: the request is no longer pending before anything else is done, so where the grant
raises, its waiters are not called. -/
def resolve (s : AgentApprovals) (id : Nat) (verdict : Verdict) (saves : Bool) : AgentApprovals :=
  match s.requests[id]? with
  | none => s
  | some request =>
    if request.resolved = true then s
    else
      match (s.settle id request verdict).grantVerdict request.call verdict saves with
      | .error raised => raised
      | .ok granted => granted.callWaiters (.byUser id verdict.approves) request.waiters

/-- The function that runs now returns. -/
def returns (s : AgentApprovals) : AgentApprovals :=
  match s.frames with
  | [] => s
  | .callback :: frames => { s with frames := frames }
  | .waiters rest answer :: frames => { s with frames := frames }.callWaiters answer rest

/-- It raises, and what waits for it is abandoned. -/
def raises (s : AgentApprovals) : AgentApprovals := { s with frames := s.frames.tail }

end AgentApprovals

/-- What the code outside does, within a callback or not. -/
inductive Action where
  | requestRisk (call : Asked)
  | resolve (id : Nat) (verdict : Verdict) (saves : Bool)
  | returns
  | raises
deriving DecidableEq, Repr

def step (policy : String → Option RiskPolicy) (s : AgentApprovals) : Action → AgentApprovals
  | .requestRisk call => s.requestRisk policy call
  | .resolve id verdict saves => s.resolve id verdict saves
  | .returns => s.returns
  | .raises => s.raises

/-- `load-always-grants!`: the keys of the grants file, each once. -/
def load (saved : List String) : AgentApprovals where
  asked := []
  requests := []
  pendingRequests := []
  pendingByKey := []
  approvalGrants := fun _ => 0
  alwaysGrants := saved.dedup
  savedGrants := saved
  verdicts := []
  frames := []
  fired := []

section Tables
variable {s : AgentApprovals}

def keyOf (s : AgentApprovals) (id : Nat) : String :=
  ((s.requests[id]?).map fun request => request.call.key).getD ""

def waitersOf (s : AgentApprovals) (id : Nat) : List Nat :=
  ((s.requests[id]?).map Request.waiters).getD []

/-- The two tables hold the requests that are not resolved, one for each key. -/
structure Linked (s : AgentApprovals) : Prop where
  pending : ∀ id, id ∈ s.pendingRequests ↔ ∃ request, s.requests[id]? = some request ∧
    request.resolved = false
  byKey : s.pendingByKey = s.pendingRequests.map fun id => (keyOf s id, id)
  ids : s.pendingRequests.Nodup
  keys : (s.pendingRequests.map (keyOf s)).Nodup

theorem load_linked (saved : List String) : Linked (load saved) := by
  constructor <;> simp [load]

theorem Linked.of_same {t : AgentApprovals} (h : Linked s) (hrequests : t.requests = s.requests)
    (hpending : t.pendingRequests = s.pendingRequests) (hbyKey : t.pendingByKey = s.pendingByKey) :
    Linked t := by
  have hkeyOf : keyOf t = keyOf s := by
    funext id
    rw [keyOf, hrequests, keyOf]
  constructor
  · rw [hpending, hrequests]
    exact h.pending
  · rw [hbyKey, hpending, hkeyOf]
    exact h.byKey
  · rw [hpending]
    exact h.ids
  · rw [hpending, hkeyOf]
    exact h.keys

theorem Linked.lookup_none (h : Linked s) {key : String}
    (hlookup : s.pendingByKey.lookup key = none) : key ∉ s.pendingRequests.map (keyOf s) := by
  rw [h.byKey] at hlookup
  rw [List.lookup_eq_none_iff] at hlookup
  intro hmem
  obtain ⟨id, hid, rfl⟩ := List.mem_map.mp hmem
  simpa using hlookup _ (List.mem_map_of_mem hid)

theorem Linked.lookup_some (h : Linked s) {key : String} {id : Nat}
    (hlookup : s.pendingByKey.lookup key = some id) :
    id ∈ s.pendingRequests ∧ keyOf s id = key := by
  obtain ⟨before, after, hsplit, -⟩ := List.lookup_eq_some_iff.mp hlookup
  have hmem : (key, id) ∈ s.pendingByKey := by
    rw [hsplit]
    simp
  rw [h.byKey] at hmem
  obtain ⟨found, hfound, heq⟩ := List.mem_map.mp hmem
  obtain ⟨hkey, rfl⟩ := Prod.mk.inj heq
  exact ⟨hfound, hkey⟩

/-- Only the waiters of a request, or whether it is resolved, are changed. -/
theorem keyOf_modify {t : AgentApprovals} {id : Nat} {f : Request → Request}
    (ht : t.requests = s.requests.modify id f) (hf : ∀ request, (f request).call = request.call) :
    keyOf t = keyOf s := by
  funext other
  rw [keyOf, keyOf, ht, List.getElem?_modify]
  cases s.requests[other]? with
  | none => rfl
  | some request =>
    by_cases hid : id = other
    · simp [hid, hf]
    · simp [hid]

theorem Linked.addWaiter (h : Linked s) (id waiter : Nat) : Linked (s.addWaiter id waiter) := by
  have hkeyOf : keyOf (s.addWaiter id waiter) = keyOf s := keyOf_modify rfl fun _ => rfl
  refine ⟨fun other => ?_, ?_, h.ids, ?_⟩
  · change other ∈ s.pendingRequests ↔ _
    rw [h.pending]
    simp only [AgentApprovals.addWaiter, List.getElem?_modify]
    by_cases hid : id = other
    · simp [hid]
    · simp [hid]
  · rw [hkeyOf]
    exact h.byKey
  · rw [hkeyOf]
    exact h.keys

theorem Linked.addRequest (h : Linked s) {call : Asked} (waiter : Nat)
    (hnew : call.key ∉ s.pendingRequests.map (keyOf s)) : Linked (s.addRequest call waiter) := by
  have hold : ∀ id ∈ s.pendingRequests, id < s.requests.length := by
    intro id hid
    obtain ⟨request, hrequest, -⟩ := (h.pending id).mp hid
    exact (List.getElem?_eq_some_iff.mp hrequest).1
  have hkeyOf : ∀ id ∈ s.pendingRequests, keyOf (s.addRequest call waiter) id = keyOf s id := by
    intro id hid
    rw [keyOf, keyOf, AgentApprovals.addRequest, List.getElem?_append_left (hold id hid)]
  have hself : keyOf (s.addRequest call waiter) s.requests.length = call.key := by
    simp [keyOf, AgentApprovals.addRequest]
  have hmap : s.pendingRequests.map (keyOf (s.addRequest call waiter)) =
      s.pendingRequests.map (keyOf s) := List.map_congr_left hkeyOf
  refine ⟨fun id => ?_, ?_, ?_, ?_⟩
  · simp only [AgentApprovals.addRequest, List.mem_cons]
    constructor
    · rintro (rfl | hid)
      · exact ⟨⟨call, [waiter], false⟩, by simp, rfl⟩
      · obtain ⟨request, hrequest, hopen⟩ := (h.pending id).mp hid
        exact ⟨request, by rw [List.getElem?_append_left (hold id hid), hrequest], hopen⟩
    · rintro ⟨request, hrequest, hopen⟩
      obtain hlt | hge := Nat.lt_or_ge id s.requests.length
      · rw [List.getElem?_append_left hlt] at hrequest
        exact .inr ((h.pending id).mpr ⟨request, hrequest, hopen⟩)
      · have hlast := (List.getElem?_eq_some_iff.mp hrequest).1
        rw [List.length_append, List.length_singleton] at hlast
        exact .inl (by omega)
  · change (call.key, s.requests.length) :: s.pendingByKey = List.map _ (_ :: s.pendingRequests)
    rw [List.map_cons, hself, h.byKey]
    exact congrArg _ (List.map_congr_left fun id hid => by rw [hkeyOf id hid])
  · exact List.nodup_cons.mpr ⟨fun hmem => Nat.lt_irrefl _ (hold _ hmem), h.ids⟩
  · change (List.map _ (s.requests.length :: s.pendingRequests)).Nodup
    rw [List.map_cons, hself, hmap]
    exact List.nodup_cons.mpr ⟨hnew, h.keys⟩

theorem Linked.settle (h : Linked s) {id : Nat} {request : Request}
    (hrequest : s.requests[id]? = some request) (hopen : request.resolved = false)
    (verdict : Verdict) : Linked (s.settle id request verdict) := by
  have hkeyOf : keyOf (s.settle id request verdict) = keyOf s := keyOf_modify rfl fun _ => rfl
  have hpending : id ∈ s.pendingRequests := (h.pending id).mpr ⟨request, hrequest, hopen⟩
  have hkey : keyOf s id = request.call.key := by simp [keyOf, hrequest]
  refine ⟨fun other => ?_, ?_, h.ids.filter _, ?_⟩
  · simp only [AgentApprovals.settle, List.mem_filter, decide_eq_true_eq, h.pending,
      List.getElem?_modify]
    by_cases hid : id = other
    · subst hid
      simp [hrequest]
    · simp [hid, Ne.symm hid]
  · rw [hkeyOf]
    change s.pendingByKey.filter _ = (s.pendingRequests.filter _).map _
    rw [h.byKey, List.filter_map]
    refine congrArg _ (List.filter_congr fun other hother => ?_)
    -- no other pending request has the key
    have hinjective : keyOf s other = keyOf s id ↔ other = id :=
      ⟨fun heq => List.inj_on_of_nodup_map h.keys hother hpending heq, fun heq => by rw [heq]⟩
    simp only [Function.comp, ← hkey, ne_eq, hinjective]
  · rw [hkeyOf]
    exact h.keys.sublist (List.filter_sublist.map _)

end Tables

section Places
variable {s t : AgentApprovals} {lost lost' : List Nat}

def Frame.waiting : Frame → List Nat
  | .callback => []
  | .waiters rest _ => rest

def pendingWaiters (s : AgentApprovals) : List Nat := s.pendingRequests.flatMap (waitersOf s)

/-- Where the calls are: answered, in a request that waits, or in a loop that calls its waiters. -/
def places (s : AgentApprovals) : List Nat :=
  s.fired.map Prod.fst ++ pendingWaiters s ++ s.frames.flatMap Frame.waiting

/-- Every call is in one place, but for those that are lost. -/
def Placed (s : AgentApprovals) (lost : List Nat) : Prop :=
  (places s ++ lost).Perm (List.range s.asked.length)

theorem pendingWaiters_of_same (hrequests : t.requests = s.requests)
    (hpending : t.pendingRequests = s.pendingRequests) : pendingWaiters t = pendingWaiters s := by
  have hwaiters : waitersOf t = waitersOf s := by
    funext id
    rw [waitersOf, hrequests, waitersOf]
  rw [pendingWaiters, hpending, hwaiters, pendingWaiters]

/-- One member of a list without duplicates, and the others. -/
theorem flatMap_perm_of_mem {α β : Type} [DecidableEq α] {l : List α} (hl : l.Nodup) {a : α}
    (ha : a ∈ l) (f : α → List β) :
    (l.flatMap f).Perm (f a ++ (l.filter (· ≠ a)).flatMap f) := by
  have hsplit := (List.perm_cons_erase ha).flatMap_right f
  have hfilter : (l.filter fun b => b != a) = l.filter (· ≠ a) :=
    List.filter_congr fun b _ => by by_cases hb : b = a <;> simp [hb]
  rw [hl.erase_eq_filter, hfilter] at hsplit
  exact hsplit

theorem places_fire (s : AgentApprovals) (waiter : Nat) (answer : Answer) :
    (places (s.fire waiter answer)).Perm (waiter :: places s) := by
  change ((s.fired ++ [(waiter, answer)]).map Prod.fst ++ pendingWaiters s ++
    s.frames.flatMap Frame.waiting).Perm _
  rw [List.map_append, List.map_singleton, List.append_assoc, List.append_assoc, places,
    List.append_assoc]
  exact List.perm_middle

theorem places_callWaiters (s : AgentApprovals) (answer : Answer) (waiters : List Nat) :
    (places (s.callWaiters answer waiters)).Perm (waiters ++ places s) := by
  cases waiters with
  | nil => exact .refl _
  | cons waiter rest =>
    change ((s.fired ++ [(waiter, answer)]).map Prod.fst ++ pendingWaiters s ++
      (rest ++ s.frames.flatMap Frame.waiting)).Perm _
    rw [List.map_append, List.map_singleton, places]
    generalize s.fired.map Prod.fst = called
    generalize pendingWaiters s = pending
    generalize s.frames.flatMap Frame.waiting = looped
    rw [List.perm_iff_count]
    intro w
    simp only [List.count_append, List.count_cons, List.count_nil]
    omega

theorem places_addWaiter (h : Linked s) {id : Nat} (hid : id ∈ s.pendingRequests) (waiter : Nat) :
    (places (s.addWaiter id waiter)).Perm (waiter :: places s) := by
  obtain ⟨request, hrequest, -⟩ := (h.pending id).mp hid
  have hself : waitersOf (s.addWaiter id waiter) id = waitersOf s id ++ [waiter] := by
    simp [waitersOf, AgentApprovals.addWaiter, hrequest]
  have hothers : (s.pendingRequests.filter (· ≠ id)).flatMap (waitersOf (s.addWaiter id waiter)) =
      (s.pendingRequests.filter (· ≠ id)).flatMap (waitersOf s) := by
    refine List.flatMap_congr fun other hother => ?_
    have hne : id ≠ other := fun heq => by simp [heq] at hother
    simp [waitersOf, AgentApprovals.addWaiter, hne]
  have hpending : (pendingWaiters (s.addWaiter id waiter)).Perm (waiter :: pendingWaiters s) := by
    have hnew := flatMap_perm_of_mem h.ids hid (waitersOf (s.addWaiter id waiter))
    have hold := flatMap_perm_of_mem h.ids hid (waitersOf s)
    rw [hself, hothers] at hnew
    refine hnew.trans (.trans ?_ (hold.symm.cons waiter))
    rw [List.append_assoc]
    exact List.perm_middle
  change (s.fired.map Prod.fst ++ pendingWaiters (s.addWaiter id waiter) ++
    s.frames.flatMap Frame.waiting).Perm _
  rw [places]
  exact ((hpending.append_left _).trans List.perm_middle).append_right _

theorem places_addRequest (h : Linked s) (call : Asked) (waiter : Nat) :
    (places (s.addRequest call waiter)).Perm (waiter :: places s) := by
  have hself : waitersOf (s.addRequest call waiter) s.requests.length = [waiter] := by
    simp [waitersOf, AgentApprovals.addRequest]
  have hothers : s.pendingRequests.flatMap (waitersOf (s.addRequest call waiter)) =
      pendingWaiters s := by
    refine List.flatMap_congr fun id hid => ?_
    obtain ⟨request, hrequest, -⟩ := (h.pending id).mp hid
    rw [waitersOf, waitersOf, AgentApprovals.addRequest,
      List.getElem?_append_left (List.getElem?_eq_some_iff.mp hrequest).1]
  have hpending : pendingWaiters (s.addRequest call waiter) = waiter :: pendingWaiters s := by
    change List.flatMap _ (s.requests.length :: s.pendingRequests) = _
    rw [List.flatMap_cons, hself, hothers]
    rfl
  change (s.fired.map Prod.fst ++ pendingWaiters (s.addRequest call waiter) ++
    s.frames.flatMap Frame.waiting).Perm _
  rw [hpending, places]
  exact List.perm_middle.append_right _

/-- The waiters of a settled request are no longer in a place. -/
theorem places_settle (h : Linked s) {id : Nat} {request : Request}
    (hrequest : s.requests[id]? = some request) (hopen : request.resolved = false)
    (verdict : Verdict) :
    (request.waiters ++ places (s.settle id request verdict)).Perm (places s) := by
  have hid : id ∈ s.pendingRequests := (h.pending id).mpr ⟨request, hrequest, hopen⟩
  have hwaiters : waitersOf s id = request.waiters := by simp [waitersOf, hrequest]
  have hsame : waitersOf (s.settle id request verdict) = waitersOf s := by
    funext other
    rw [waitersOf, waitersOf, AgentApprovals.settle, List.getElem?_modify]
    cases s.requests[other]? with
    | none => rfl
    | some found =>
      by_cases heq : id = other
      · simp [heq]
      · simp [heq]
  have hpending : (request.waiters ++ pendingWaiters (s.settle id request verdict)).Perm
      (pendingWaiters s) := by
    have hsplit := flatMap_perm_of_mem h.ids hid (waitersOf s)
    rw [hwaiters] at hsplit
    rw [pendingWaiters, hsame]
    exact hsplit.symm
  change (request.waiters ++ (s.fired.map Prod.fst ++
    pendingWaiters (s.settle id request verdict) ++ s.frames.flatMap Frame.waiting)).Perm _
  rw [places]
  revert hpending
  generalize pendingWaiters (s.settle id request verdict) = left
  intro hpending
  rw [List.perm_iff_count] at hpending ⊢
  intro w
  have hcount := hpending w
  simp only [List.count_append] at hcount ⊢
  omega

/-- The new call takes its place. -/
theorem places_askUser (h : Linked s) (call : Asked) (waiter : Nat) :
    (places (s.askUser call waiter)).Perm (waiter :: places s) := by
  unfold AgentApprovals.askUser
  cases hgrant : s.consumeGrant call.key with
  | some granted =>
    obtain ⟨always, left⟩ := granted
    have hsame : places left = places s := by
      unfold AgentApprovals.consumeGrant at hgrant
      split_ifs at hgrant
      · obtain ⟨-, rfl⟩ := Prod.mk.inj (Option.some.inj hgrant)
        rfl
      · obtain ⟨-, rfl⟩ := Prod.mk.inj (Option.some.inj hgrant)
        rfl
    exact hsame ▸ places_fire left waiter _
  | none =>
    cases hlookup : s.pendingByKey.lookup call.key with
    | some id => exact places_addWaiter h (h.lookup_some hlookup).1 waiter
    | none => exact places_addRequest h call waiter

theorem Linked.askUser (h : Linked s) (call : Asked) (waiter : Nat) :
    Linked (s.askUser call waiter) := by
  unfold AgentApprovals.askUser
  cases hgrant : s.consumeGrant call.key with
  | some granted =>
    obtain ⟨always, left⟩ := granted
    unfold AgentApprovals.consumeGrant at hgrant
    split_ifs at hgrant
    · obtain ⟨-, rfl⟩ := Prod.mk.inj (Option.some.inj hgrant)
      exact h.of_same rfl rfl rfl
    · obtain ⟨-, rfl⟩ := Prod.mk.inj (Option.some.inj hgrant)
      exact h.of_same rfl rfl rfl
  | none =>
    cases hlookup : s.pendingByKey.lookup call.key with
    | some id => exact (h.addWaiter id waiter).of_same rfl rfl rfl
    | none => exact (h.addRequest waiter (h.lookup_none hlookup)).of_same rfl rfl rfl

@[simp] theorem asked_askUser (s : AgentApprovals) (call : Asked) (waiter : Nat) :
    (s.askUser call waiter).asked = s.asked := by
  unfold AgentApprovals.askUser
  cases hgrant : s.consumeGrant call.key with
  | some granted =>
    obtain ⟨always, left⟩ := granted
    unfold AgentApprovals.consumeGrant at hgrant
    split_ifs at hgrant
    · obtain ⟨-, rfl⟩ := Prod.mk.inj (Option.some.inj hgrant)
      rfl
    · obtain ⟨-, rfl⟩ := Prod.mk.inj (Option.some.inj hgrant)
      rfl
  | none => cases s.pendingByKey.lookup call.key <;> rfl

@[simp] theorem asked_callWaiters (s : AgentApprovals) (answer : Answer) (waiters : List Nat) :
    (s.callWaiters answer waiters).asked = s.asked := by
  cases waiters <;> rfl

theorem places_popped {frame : Frame} {frames : List Frame} (hframes : s.frames = frame :: frames) :
    (frame.waiting ++ places { s with frames := frames }).Perm (places s) := by
  change (frame.waiting ++ (s.fired.map Prod.fst ++ pendingWaiters s ++
    frames.flatMap Frame.waiting)).Perm _
  rw [places, hframes, List.flatMap_cons, List.perm_iff_count]
  intro w
  simp only [List.count_append]
  omega

/-- What a grant leaves alone. -/
structure SameCalls (s t : AgentApprovals) : Prop where
  asked : t.asked = s.asked
  requests : t.requests = s.requests
  pendingRequests : t.pendingRequests = s.pendingRequests
  pendingByKey : t.pendingByKey = s.pendingByKey
  verdicts : t.verdicts = s.verdicts
  frames : t.frames = s.frames
  fired : t.fired = s.fired

theorem SameCalls.linked (h : SameCalls s t) (hs : Linked s) : Linked t :=
  hs.of_same h.requests h.pendingRequests h.pendingByKey

theorem SameCalls.places (h : SameCalls s t) : places t = places s := by
  rw [Approvals.places, Approvals.places, h.fired, h.frames,
    pendingWaiters_of_same h.requests h.pendingRequests]

/-- The state of a grant, whether it raises or not. -/
def after : Except AgentApprovals AgentApprovals → AgentApprovals
  | .ok t => t
  | .error t => t

/-- What a verdict does to the grants: nothing, one more grant for one call, or one for always. -/
theorem grantVerdict_cases (s : AgentApprovals) (call : Asked) (verdict : Verdict) (saves : Bool) :
    (after (s.grantVerdict call verdict saves) = s ∧
      ¬ (verdict = .approve false ∧ call.context.grantOnApprove = true)) ∨
    (after (s.grantVerdict call verdict saves) = { s with
        approvalGrants := Function.update s.approvalGrants call.key (s.approvalGrants call.key + 1) } ∧
      verdict = .approve false ∧ call.context.grantOnApprove = true) ∨
    (∃ keys, after (s.grantVerdict call verdict saves) = { s with
        alwaysGrants := if call.key ∈ s.alwaysGrants then s.alwaysGrants
          else s.alwaysGrants ++ [call.key]
        savedGrants := keys } ∧
      verdict = .approve true ∧ call.context.grantOnApprove = true) := by
  cases verdict with
  | deny => exact .inl ⟨rfl, by simp⟩
  | approve always =>
    cases hgrant : call.context.grantOnApprove with
    | false => exact .inl ⟨by simp [AgentApprovals.grantVerdict, hgrant, after], by simp⟩
    | true =>
      cases always with
      | false => exact .inr (.inl ⟨by simp [AgentApprovals.grantVerdict, hgrant, after,
          AgentApprovals.grantKey], rfl, rfl⟩)
      | true =>
        cases hhash : call.context.argsHash with
        | none => exact .inl ⟨by simp [AgentApprovals.grantVerdict, hgrant, hhash, after], by simp⟩
        | some hash =>
          refine .inr (.inr ?_)
          cases saves with
          | false =>
            exact ⟨s.savedGrants, by simp [AgentApprovals.grantVerdict, hgrant, hhash, after,
              AgentApprovals.grantKey], rfl, rfl⟩
          | true => exact ⟨_, by simp only [AgentApprovals.grantVerdict, hgrant, hhash, after,
              AgentApprovals.grantKey, if_true, reduceCtorEq, and_false, if_false]; rfl, rfl, rfl⟩

theorem grantVerdict_same (s : AgentApprovals) (call : Asked) (verdict : Verdict) (saves : Bool) :
    SameCalls s (after (s.grantVerdict call verdict saves)) := by
  obtain ⟨h, -⟩ | ⟨h, -⟩ | ⟨keys, h, -⟩ := grantVerdict_cases s call verdict saves
  · rw [h]
    exact ⟨rfl, rfl, rfl, rfl, rfl, rfl, rfl⟩
  · rw [h]
    exact ⟨rfl, rfl, rfl, rfl, rfl, rfl, rfl⟩
  · rw [h]
    exact ⟨rfl, rfl, rfl, rfl, rfl, rfl, rfl⟩

end Places

section Runs
variable {policy : String → Option RiskPolicy} {s : AgentApprovals} {lost : List Nat}

/-- The waiters of a request whose grant raises. -/
def refused (s : AgentApprovals) (id : Nat) (verdict : Verdict) (saves : Bool) : List Nat :=
  match s.requests[id]? with
  | none => []
  | some request =>
    if request.resolved = true then []
    else
      match (s.settle id request verdict).grantVerdict request.call verdict saves with
      | .error _ => request.waiters
      | .ok _ => []

/-- The calls that an action loses: those that wait in the loop where one raises, and those that
are refused. -/
def losses (s : AgentApprovals) : Action → List Nat
  | .raises => (s.frames.head?.map Frame.waiting).getD []
  | .resolve id verdict saves => refused s id verdict saves
  | .requestRisk _ | .returns => []

theorem Linked.step (h : Linked s) (action : Action) : Linked (step policy s action) := by
  cases action with
  | requestRisk call =>
    change Linked (s.requestRisk policy call)
    unfold AgentApprovals.requestRisk
    cases checkRisk policy call.risk call.context with
    | error message => exact h
    | ok state =>
      have hnext : Linked { s with asked := s.asked ++ [call] } := h.of_same rfl rfl rfl
      cases state with
      | approved => exact hnext.of_same rfl rfl rfl
      | denied => exact hnext.of_same rfl rfl rfl
      | needsApproval => exact hnext.askUser call s.asked.length
  | resolve id verdict saves =>
    change Linked (s.resolve id verdict saves)
    unfold AgentApprovals.resolve
    cases hrequest : s.requests[id]? with
    | none => exact h
    | some request =>
      dsimp only
      split_ifs with hresolved
      · exact h
      · have hsettled := h.settle hrequest (by simpa using hresolved) verdict
        have hsame := grantVerdict_same (s.settle id request verdict) request.call verdict saves
        have hgranted := hsame.linked hsettled
        cases hgrant : (s.settle id request verdict).grantVerdict request.call verdict saves with
        | error raised => rwa [hgrant] at hgranted
        | ok granted =>
          rw [hgrant] at hgranted
          cases hwaiters : request.waiters with
          | nil => exact hgranted.of_same rfl rfl rfl
          | cons waiter rest => exact hgranted.of_same rfl rfl rfl
  | returns =>
    change Linked s.returns
    unfold AgentApprovals.returns
    split
    · exact h
    · exact h.of_same rfl rfl rfl
    next rest answer frames hframes => cases rest <;> exact h.of_same rfl rfl rfl
  | raises => exact h.of_same rfl rfl rfl

/-- An action adds its own call, if it is one, and loses what it loses. -/
theorem Placed.step (h : Placed s lost) (hlinked : Linked s) (action : Action) :
    Placed (step policy s action) (lost ++ losses s action) := by
  unfold Placed at h ⊢
  cases action with
  | requestRisk call =>
    change (places (s.requestRisk policy call) ++ (lost ++ [])).Perm
      (List.range (s.requestRisk policy call).asked.length)
    rw [List.append_nil]
    unfold AgentApprovals.requestRisk
    cases checkRisk policy call.risk call.context with
    | error message => exact h
    | ok state =>
      have hnew : ∀ t : AgentApprovals, t.asked = s.asked ++ [call] →
          (places t).Perm (s.asked.length :: places s) →
          (places t ++ lost).Perm (List.range t.asked.length) := by
        intro t hasked hplaces
        rw [hasked, List.length_append, List.length_singleton, List.range_succ]
        exact (hplaces.append_right lost).trans
          ((h.cons _).trans (List.perm_append_singleton _ _).symm)
      cases state with
      | approved => exact hnew _ rfl (places_fire _ _ _)
      | denied => exact hnew _ rfl (places_fire _ _ _)
      | needsApproval =>
        have hnext : Linked { s with asked := s.asked ++ [call] } := hlinked.of_same rfl rfl rfl
        exact hnew
          (AgentApprovals.askUser { s with asked := s.asked ++ [call] } call s.asked.length)
          (asked_askUser ..) (places_askUser hnext call s.asked.length)
  | resolve id verdict saves =>
    change (places (s.resolve id verdict saves) ++ (lost ++ refused s id verdict saves)).Perm
      (List.range (s.resolve id verdict saves).asked.length)
    unfold AgentApprovals.resolve refused
    cases hrequest : s.requests[id]? with
    | none => simpa using h
    | some request =>
      dsimp only
      split_ifs with hresolved
      · simpa using h
      · have hsettled := places_settle hlinked hrequest (by simpa using hresolved) verdict
        have hsame := grantVerdict_same (s.settle id request verdict) request.call verdict saves
        cases hgrant : (s.settle id request verdict).grantVerdict request.call verdict saves with
        | error raised =>
          rw [hgrant] at hsame
          change (places raised ++ (lost ++ request.waiters)).Perm (List.range raised.asked.length)
          rw [show raised.asked = s.asked from hsame.asked]
          refine .trans ?_ ((hsettled.append_right lost).trans h)
          rw [show places raised = places (s.settle id request verdict) from hsame.places]
          exact ((List.perm_append_comm.append_left _).trans
            (List.perm_append_comm_assoc ..)).trans (by rw [List.append_assoc])
        | ok granted =>
          rw [hgrant] at hsame
          dsimp only
          rw [List.append_nil, asked_callWaiters, show granted.asked = s.asked from hsame.asked]
          refine .trans (.append_right lost ?_) ((hsettled.append_right lost).trans h)
          rw [← show places granted = places (s.settle id request verdict) from hsame.places]
          exact places_callWaiters ..
  | returns =>
    change (places s.returns ++ (lost ++ [])).Perm (List.range s.returns.asked.length)
    rw [List.append_nil]
    unfold AgentApprovals.returns
    split
    · exact h
    next frames hframes =>
      exact ((places_popped hframes).append_right lost).trans h
    next rest answer frames hframes =>
      rw [asked_callWaiters]
      exact (((places_callWaiters ..).trans (places_popped hframes)).append_right lost).trans h
  | raises =>
    change (places s.raises ++ (lost ++ (s.frames.head?.map Frame.waiting).getD [])).Perm
      (List.range s.asked.length)
    cases hframes : s.frames with
    | nil =>
      have hsame : places s.raises = places s := by
        rw [places, places, AgentApprovals.raises, hframes]
        rfl
      simpa [hsame] using h
    | cons frame frames =>
      have hpopped := places_popped hframes
      have hraises : s.raises = { s with frames := frames } := by
        rw [AgentApprovals.raises, hframes]
        rfl
      rw [hraises]
      refine .trans ?_ ((hpopped.append_right lost).trans h)
      exact ((List.perm_append_comm.append_left _).trans
        (List.perm_append_comm_assoc ..)).trans (by rw [List.append_assoc]; rfl)

/-- The action loses no call. -/
def Smooth (s : AgentApprovals) (action : Action) : Prop := losses s action = []

instance (s : AgentApprovals) (action : Action) : Decidable (Smooth s action) :=
  inferInstanceAs (Decidable (losses s action = []))

variable (policy) in
/-- In every run of calls, verdicts, returns and errors, no callback is called twice, and none that
is called waits in a request or in a loop; where no waiter raises and every grant is recorded, each
call is answered or waits in exactly one place. -/
theorem callbacks_called_once (saved : List String) (actions : List Action) :
    (places (actions.foldl (step policy) (load saved))).Nodup ∧
      (∀ waiter ∈ places (actions.foldl (step policy) (load saved)),
        waiter < (actions.foldl (step policy) (load saved)).asked.length) ∧
      (Along (step policy) Smooth (load saved) actions →
        (places (actions.foldl (step policy) (load saved))).Perm
          (List.range (actions.foldl (step policy) (load saved)).asked.length)) := by
  have hstart : Linked (load saved) ∧ Placed (load saved) [] := ⟨load_linked saved, .refl _⟩
  have hrun : Linked (actions.foldl (step policy) (load saved)) ∧
      ∃ lost, Placed (actions.foldl (step policy) (load saved)) lost := invariant_foldl
    (I := fun s => Linked s ∧ ∃ lost, Placed s lost)
    (fun s action hs => ⟨hs.1.step action, hs.2.elim fun lost h => ⟨_, h.step hs.1 action⟩⟩)
    ⟨hstart.1, [], hstart.2⟩ actions
  obtain ⟨-, lost, hplaced⟩ := hrun
  have hnodup : (places (actions.foldl (step policy) (load saved)) ++ lost).Nodup :=
    hplaced.nodup_iff.mpr List.nodup_range
  refine ⟨hnodup.of_append_left, fun waiter hwaiter => ?_, fun hsmooth => ?_⟩
  · exact List.mem_range.mp (hplaced.mem_iff.mp (List.mem_append_left _ hwaiter))
  · have hall := hsmooth.invariant (I := fun s => Linked s ∧ Placed s [])
      (fun s action hs hlossless => ⟨hs.1.step action, by
        have hnext : Placed (step policy s action) ([] ++ losses s action) :=
          hs.2.step hs.1 action
        rwa [show losses s action = [] from hlossless] at hnext⟩) hstart
    have hperm := hall.2
    unfold Placed at hperm
    rwa [List.append_nil] at hperm

end Runs

/-! ## What an approval rests on -/

section Backing
variable {policy : String → Option RiskPolicy} {saved : List String} {s t : AgentApprovals}

/-- The call was left to the user and has this key. -/
def LeftToUser (policy : String → Option RiskPolicy) (s : AgentApprovals) (waiter : Nat)
    (key : String) : Prop :=
  ∃ call, s.asked[waiter]? = some call ∧ call.key = key ∧
    checkRisk policy call.risk call.context = .ok .needsApproval

/-- The verdict leaves this grant for the key: its request has the key and asks for a grant. -/
def grants (s : AgentApprovals) (key : String) (always : Bool) (verdict : Nat × Verdict) : Bool :=
  verdict.2 = .approve always && (s.requests[verdict.1]?).any fun request =>
    request.call.key = key && request.call.context.grantOnApprove

/-- The answer uses up a grant for one call with the key. -/
def uses (s : AgentApprovals) (key : String) (called : Nat × Answer) : Bool :=
  called.2 = .byGrant false && (s.asked[called.1]?).any fun call => call.key = key

/-- An answer is that of the policy, or a verdict on a request with the key of the call, or it comes
from a grant; a grant for always was saved before or given by a verdict for the key. -/
def Backed (policy : String → Option RiskPolicy) (saved : List String) (s : AgentApprovals)
    (waiter : Nat) : Answer → Prop
  | .byPolicy approved => ∃ call, s.asked[waiter]? = some call ∧
    checkRisk policy call.risk call.context = .ok (if approved then .approved else .denied)
  | .byGrant always => ∃ key, LeftToUser policy s waiter key ∧ (always = true →
    key ∈ saved ∨ s.verdicts.any (grants s key true) = true)
  | .byUser id approved => ∃ request verdict, s.requests[id]? = some request ∧
    LeftToUser policy s waiter request.call.key ∧ (id, verdict) ∈ s.verdicts ∧
    verdict.approves = approved

/-- Calls, verdicts and requests are only added, and a request keeps what it is about. -/
structure Grows (s t : AgentApprovals) : Prop where
  asked : s.asked <+: t.asked
  verdicts : s.verdicts <+: t.verdicts
  requests : ∀ (id : Nat) (request : Request), s.requests[id]? = some request →
    ∃ held, t.requests[id]? = some held ∧ held.call = request.call

theorem Grows.refl (s : AgentApprovals) : Grows s s :=
  ⟨List.prefix_rfl, List.prefix_rfl, fun _ request h => ⟨request, h, rfl⟩⟩

theorem Grows.asked_getElem? (h : Grows s t) {waiter : Nat} {call : Asked}
    (hcall : s.asked[waiter]? = some call) : t.asked[waiter]? = some call := by
  obtain ⟨rest, hrest⟩ := h.asked
  rw [← hrest, List.getElem?_append_left (List.getElem?_eq_some_iff.mp hcall).1, hcall]

theorem Grows.leftToUser (h : Grows s t) {waiter : Nat} {key : String}
    (hleft : LeftToUser policy s waiter key) : LeftToUser policy t waiter key := by
  obtain ⟨call, hcall, hkey, hcheck⟩ := hleft
  exact ⟨call, h.asked_getElem? hcall, hkey, hcheck⟩

theorem Grows.grants (h : Grows s t) {key : String} {always : Bool} {verdict : Nat × Verdict}
    (hgrants : grants s key always verdict = true) : grants t key always verdict = true := by
  unfold Approvals.grants at hgrants ⊢
  rw [Bool.and_eq_true] at hgrants ⊢
  refine ⟨hgrants.1, ?_⟩
  cases hrequest : s.requests[verdict.1]? with
  | none => simp [hrequest] at hgrants
  | some request =>
    obtain ⟨held, hheld, hcall⟩ := h.requests verdict.1 request hrequest
    rw [hrequest] at hgrants
    rw [hheld, Option.any_some, hcall]
    exact hgrants.2

theorem Grows.any_grants (h : Grows s t) {key : String} {always : Bool}
    (hany : s.verdicts.any (Approvals.grants s key always) = true) :
    t.verdicts.any (Approvals.grants t key always) = true := by
  obtain ⟨verdict, hmem, hgrants⟩ := List.any_eq_true.mp hany
  exact List.any_eq_true.mpr ⟨verdict, h.verdicts.subset hmem, h.grants hgrants⟩

theorem Grows.backed (h : Grows s t) {waiter : Nat} {answer : Answer}
    (hbacked : Backed policy saved s waiter answer) : Backed policy saved t waiter answer := by
  cases answer with
  | byPolicy approved =>
    obtain ⟨call, hcall, hcheck⟩ := hbacked
    exact ⟨call, h.asked_getElem? hcall, hcheck⟩
  | byGrant always =>
    obtain ⟨key, hleft, halways⟩ := hbacked
    exact ⟨key, h.leftToUser hleft, fun htrue => (halways htrue).imp_right h.any_grants⟩
  | byUser id approved =>
    obtain ⟨request, verdict, hrequest, hleft, hmem, happroves⟩ := hbacked
    obtain ⟨held, hheld, hcall⟩ := h.requests id request hrequest
    exact ⟨held, verdict, hheld, by rw [hcall]; exact h.leftToUser hleft, h.verdicts.subset hmem,
      happroves⟩

/-- What a loop over the waiters of a request calls them with is backed for each of them. -/
def Looped (policy : String → Option RiskPolicy) (saved : List String) (s : AgentApprovals) :
    Frame → Prop
  | .callback => True
  | .waiters rest answer => answer ≠ .byGrant false ∧
    ∀ waiter ∈ rest, Backed policy saved s waiter answer

theorem Grows.looped (h : Grows s t) {frame : Frame} (hlooped : Looped policy saved s frame) :
    Looped policy saved t frame := by
  cases frame with
  | callback => trivial
  | waiters rest answer =>
    exact ⟨hlooped.1, fun waiter hwaiter => h.backed (hlooped.2 waiter hwaiter)⟩

/-- What has been answered, and what is about to be, is backed; the calls that wait in a request
have its key; and the grants for one call are those given and not yet used. -/
structure Honest (policy : String → Option RiskPolicy) (saved : List String) (s : AgentApprovals) :
    Prop where
  fired : ∀ called ∈ s.fired, Backed policy saved s called.1 called.2
  looped : ∀ frame ∈ s.frames, Looped policy saved s frame
  waiting : ∀ (id : Nat) (request : Request), s.requests[id]? = some request →
    ∀ waiter ∈ request.waiters,
    LeftToUser policy s waiter request.call.key
  always : ∀ key ∈ s.alwaysGrants, key ∈ saved ∨ s.verdicts.any (grants s key true) = true
  ledger : ∀ key, s.fired.countP (uses s key) + s.approvalGrants key =
    s.verdicts.countP (grants s key false)
  judged : ∀ verdict ∈ s.verdicts, verdict.1 < s.requests.length

theorem load_honest : Honest policy saved (load saved) := by
  refine ⟨nofun, nofun, ?_, fun key hkey => .inl (List.mem_dedup.mp hkey), fun _ => rfl, nofun⟩
  intro id request hrequest
  simp [load] at hrequest

theorem Backed.asked {waiter : Nat} {answer : Answer} (h : Backed policy saved s waiter answer) :
    waiter < s.asked.length := by
  have hcall : ∃ call, s.asked[waiter]? = some call := by
    cases answer with
    | byPolicy approved =>
      obtain ⟨call, hcall, -⟩ := h
      exact ⟨call, hcall⟩
    | byGrant always =>
      obtain ⟨key, ⟨call, hcall, -⟩, -⟩ := h
      exact ⟨call, hcall⟩
    | byUser id approved =>
      obtain ⟨request, verdict, -, ⟨call, hcall, -⟩, -⟩ := h
      exact ⟨call, hcall⟩
  obtain ⟨call, hcall⟩ := hcall
  exact (List.getElem?_eq_some_iff.mp hcall).1

theorem Grows.uses_eq (h : Grows s t) {key : String} {called : Nat × Answer}
    (hcalled : called.1 < s.asked.length) : uses t key called = uses s key called := by
  unfold uses
  rw [List.getElem?_eq_getElem hcalled, h.asked_getElem? (List.getElem?_eq_getElem hcalled)]

theorem Grows.grants_eq (h : Grows s t) {key : String} {always : Bool} {verdict : Nat × Verdict}
    (hverdict : verdict.1 < s.requests.length) :
    Approvals.grants t key always verdict = Approvals.grants s key always verdict := by
  obtain ⟨held, hheld, hcall⟩ := h.requests verdict.1 _ (List.getElem?_eq_getElem hverdict)
  unfold Approvals.grants
  rw [hheld, List.getElem?_eq_getElem hverdict, Option.any_some, Option.any_some, hcall]

/-- Nothing is called, but calls, verdicts or requests may be added and grants may change. -/
theorem Honest.grow (h : Honest policy saved s) (hgrows : Grows s t) (hfired : t.fired = s.fired)
    (hframes : t.frames = s.frames)
    (hwaiting : ∀ (id : Nat) (request : Request), t.requests[id]? = some request →
      ∀ waiter ∈ request.waiters, LeftToUser policy t waiter request.call.key)
    (halways : ∀ key ∈ t.alwaysGrants, key ∈ saved ∨ t.verdicts.any (grants t key true) = true)
    (hledger : ∀ key, s.fired.countP (uses s key) + t.approvalGrants key =
      t.verdicts.countP (grants t key false))
    (hjudged : ∀ verdict ∈ t.verdicts, verdict.1 < t.requests.length) :
    Honest policy saved t := by
  refine ⟨fun called hcalled => ?_, fun frame hframe => ?_, hwaiting, halways, fun key => ?_,
    hjudged⟩
  · rw [hfired] at hcalled
    exact hgrows.backed (h.fired called hcalled)
  · rw [hframes] at hframe
    exact hgrows.looped (h.looped frame hframe)
  · rw [hfired, ← hledger key]
    exact congrArg (· + _) (List.countP_congr fun called hcalled => by
      rw [hgrows.uses_eq (h.fired called hcalled).asked])

/-- The same calls, verdicts, requests and grants. -/
theorem Honest.grow_same (h : Honest policy saved s) (hgrows : Grows s t)
    (hfired : t.fired = s.fired) (hframes : t.frames = s.frames)
    (hrequests : t.requests = s.requests) (hverdicts : t.verdicts = s.verdicts)
    (halways : t.alwaysGrants = s.alwaysGrants) (honce : t.approvalGrants = s.approvalGrants) :
    Honest policy saved t := by
  refine h.grow hgrows hfired hframes (fun id request hrequest waiter hwaiter => ?_)
    (fun key hkey => ?_) (fun key => ?_) fun verdict hverdict => ?_
  · rw [hrequests] at hrequest
    exact hgrows.leftToUser (h.waiting id request hrequest waiter hwaiter)
  · rw [halways] at hkey
    exact (h.always key hkey).imp_right hgrows.any_grants
  · rw [honce, h.ledger key, hverdicts]
    exact List.countP_congr fun verdict hverdict => by rw [hgrows.grants_eq (h.judged _ hverdict)]
  · rw [hverdicts] at hverdict
    rw [hrequests]
    exact h.judged verdict hverdict

/-- Frames that hold nothing new. -/
theorem Honest.withFrames (h : Honest policy saved s) {frames : List Frame}
    (hframes : ∀ frame ∈ frames, Looped policy saved s frame) :
    Honest policy saved { s with frames := frames } := by
  have hgrows : Grows s { s with frames := frames } :=
    ⟨List.prefix_rfl, List.prefix_rfl, fun _ request hrequest => ⟨request, hrequest, rfl⟩⟩
  exact ⟨fun called hcalled => hgrows.backed (h.fired called hcalled),
    fun frame hframe => hgrows.looped (hframes frame hframe), h.waiting, h.always, h.ledger,
    h.judged⟩

/-- A callback is called with an answer that is backed and uses up no grant. -/
theorem Honest.call (h : Honest policy saved s) {waiter : Nat} {answer : Answer}
    (hbacked : Backed policy saved s waiter answer) (hfree : answer ≠ .byGrant false) :
    Honest policy saved { s with fired := s.fired ++ [(waiter, answer)] } := by
  have hgrows : Grows s { s with fired := s.fired ++ [(waiter, answer)] } :=
    ⟨List.prefix_rfl, List.prefix_rfl, fun _ request hrequest => ⟨request, hrequest, rfl⟩⟩
  refine ⟨fun called hcalled => ?_, fun frame hframe => hgrows.looped (h.looped frame hframe),
    h.waiting, h.always, fun key => ?_, h.judged⟩
  · obtain hcalled | hcalled := List.mem_append.mp hcalled
    · exact hgrows.backed (h.fired called hcalled)
    · obtain rfl := List.mem_singleton.mp hcalled
      exact hgrows.backed hbacked
  · refine .trans ?_ (h.ledger key)
    refine congrArg (· + _) ((List.countP_append ..).trans ?_)
    have hnone : uses s key (waiter, answer) = false := by simp [uses, hfree]
    rw [List.countP_singleton]
    change _ + (if uses s key (waiter, answer) = true then 1 else 0) = _
    rw [hnone]
    rfl

theorem Honest.fire (h : Honest policy saved s) {waiter : Nat} {answer : Answer}
    (hbacked : Backed policy saved s waiter answer) (hfree : answer ≠ .byGrant false) :
    Honest policy saved (s.fire waiter answer) :=
  have hcalled := h.call hbacked hfree
  hcalled.withFrames (List.forall_mem_cons.mpr ⟨trivial, hcalled.looped⟩)

theorem Honest.emit (h : Honest policy saved s) : Honest policy saved s.emit :=
  h.withFrames (List.forall_mem_cons.mpr ⟨trivial, h.looped⟩)

theorem Honest.callWaiters (h : Honest policy saved s) {answer : Answer} {waiters : List Nat}
    (hlooped : Looped policy saved s (.waiters waiters answer)) :
    Honest policy saved (s.callWaiters answer waiters) := by
  obtain ⟨hfree, hbacked⟩ := hlooped
  cases waiters with
  | nil => exact h.emit
  | cons waiter rest =>
    have hcalled := h.call (hbacked waiter List.mem_cons_self) hfree
    refine hcalled.withFrames (List.forall_mem_cons.mpr ⟨⟨hfree, ?_⟩, hcalled.looped⟩)
    exact fun next hnext => hbacked next (List.mem_cons_of_mem _ hnext)

/-- A call is added. -/
theorem Honest.ask (h : Honest policy saved s) (call : Asked) :
    Honest policy saved { s with asked := s.asked ++ [call] } := by
  have hgrows : Grows s { s with asked := s.asked ++ [call] } :=
    ⟨List.prefix_append _ _, List.prefix_rfl, fun _ request hrequest => ⟨request, hrequest, rfl⟩⟩
  exact h.grow_same hgrows rfl rfl rfl rfl rfl rfl

theorem Honest.addWaiter (h : Honest policy saved s) {id waiter : Nat} {key : String}
    (hkey : keyOf s id = key) (hleft : LeftToUser policy s waiter key) :
    Honest policy saved (s.addWaiter id waiter) := by
  have hrequests : ∀ (other : Nat) (request : Request), s.requests[other]? = some request →
      (s.addWaiter id waiter).requests[other]? = some (if id = other then
        { request with waiters := request.waiters ++ [waiter] } else request) := by
    intro other request hrequest
    rw [AgentApprovals.addWaiter, List.getElem?_modify, hrequest]
    split_ifs <;> rfl
  have hgrows : Grows s (s.addWaiter id waiter) := by
    refine ⟨List.prefix_rfl, List.prefix_rfl, fun other request hrequest => ⟨_, hrequests other
      request hrequest, ?_⟩⟩
    split_ifs <;> rfl
  refine h.grow hgrows rfl rfl (fun other held hheld next hnext => ?_)
    (fun key hkey => (h.always key hkey).imp_right hgrows.any_grants) (fun key => ?_)
    fun verdict hverdict => ?_
  · cases hrequest : s.requests[other]? with
    | none =>
      rw [AgentApprovals.addWaiter, List.getElem?_modify, hrequest] at hheld
      cases hheld
    | some request =>
      rw [hrequests other request hrequest] at hheld
      obtain rfl := Option.some.inj hheld
      split_ifs at hnext ⊢ with heq
      · subst heq
        obtain hnext | hnext := List.mem_append.mp hnext
        · exact hgrows.leftToUser (h.waiting id request hrequest next hnext)
        · obtain rfl := List.mem_singleton.mp hnext
          have hcall : request.call.key = key := by simpa [keyOf, hrequest] using hkey
          rw [← hcall] at hleft
          exact hgrows.leftToUser hleft
      · exact hgrows.leftToUser (h.waiting other request hrequest next hnext)
  · rw [show (s.addWaiter id waiter).approvalGrants = s.approvalGrants from rfl, h.ledger key]
    exact List.countP_congr fun verdict hverdict => by rw [hgrows.grants_eq (h.judged _ hverdict)]
  · rw [AgentApprovals.addWaiter, List.length_modify]
    exact h.judged verdict hverdict

theorem Honest.addRequest (h : Honest policy saved s) {call : Asked} {waiter : Nat}
    (hleft : LeftToUser policy s waiter call.key) :
    Honest policy saved (s.addRequest call waiter) := by
  have hgrows : Grows s (s.addRequest call waiter) := by
    refine ⟨List.prefix_rfl, List.prefix_rfl, fun id request hrequest => ⟨request, ?_, rfl⟩⟩
    rw [AgentApprovals.addRequest,
      List.getElem?_append_left (List.getElem?_eq_some_iff.mp hrequest).1, hrequest]
  refine h.grow hgrows rfl rfl (fun id held hheld next hnext => ?_)
    (fun key hkey => (h.always key hkey).imp_right hgrows.any_grants) (fun key => ?_)
    fun verdict hverdict => ?_
  · obtain hold | hnew := List.mem_append.mp (List.mem_of_getElem? hheld)
    · obtain ⟨index, hindex⟩ := List.mem_iff_getElem?.mp hold
      exact hgrows.leftToUser (h.waiting index held hindex next hnext)
    · obtain rfl := List.mem_singleton.mp hnew
      obtain rfl := List.mem_singleton.mp hnext
      exact hgrows.leftToUser hleft
  · rw [show (s.addRequest call waiter).approvalGrants = s.approvalGrants from rfl, h.ledger key]
    exact List.countP_congr fun verdict hverdict => by rw [hgrows.grants_eq (h.judged _ hverdict)]
  · rw [AgentApprovals.addRequest, List.length_append]
    exact Nat.lt_add_right _ (h.judged verdict hverdict)

/-- A grant for one call is used up. -/
theorem Honest.useGrant (h : Honest policy saved s) {call : Asked} {waiter : Nat}
    (hcall : s.asked[waiter]? = some call)
    (hcheck : checkRisk policy call.risk call.context = .ok .needsApproval)
    (hleft : 0 < s.approvalGrants call.key) :
    Honest policy saved { s with
      approvalGrants := Function.update s.approvalGrants call.key (s.approvalGrants call.key - 1)
      fired := s.fired ++ [(waiter, .byGrant false)] } := by
  set t : AgentApprovals := { s with
    approvalGrants := Function.update s.approvalGrants call.key (s.approvalGrants call.key - 1)
    fired := s.fired ++ [(waiter, .byGrant false)] } with ht
  have hgrows : Grows s t :=
    ⟨List.prefix_rfl, List.prefix_rfl, fun _ request hrequest => ⟨request, hrequest, rfl⟩⟩
  refine ⟨fun called hcalled => ?_, fun frame hframe => hgrows.looped (h.looped frame hframe),
    h.waiting, h.always, fun key => ?_, h.judged⟩
  · obtain hcalled | hcalled := List.mem_append.mp hcalled
    · exact hgrows.backed (h.fired called hcalled)
    · obtain rfl := List.mem_singleton.mp hcalled
      exact ⟨call.key, ⟨call, hcall, rfl, hcheck⟩, nofun⟩
  · refine .trans ?_ (h.ledger key)
    have hsplit : t.fired.countP (uses t key) = s.fired.countP (uses s key) +
        if call.key = key then 1 else 0 := by
      refine (List.countP_append ..).trans (congrArg (s.fired.countP (uses s key) + ·) ?_)
      rw [List.countP_singleton]
      change (if uses s key (waiter, .byGrant false) = true then 1 else 0) = _
      simp [uses, hcall]
    rw [hsplit]
    change _ + Function.update s.approvalGrants call.key _ key = _
    by_cases hkey : call.key = key
    · subst hkey
      rw [if_pos rfl, Function.update_self]
      omega
    · rw [if_neg hkey, Function.update_of_ne (Ne.symm hkey), Nat.add_zero]

theorem Honest.askUser (h : Honest policy saved s) (hlinked : Linked s) {call : Asked}
    {waiter : Nat} (hcall : s.asked[waiter]? = some call)
    (hcheck : checkRisk policy call.risk call.context = .ok .needsApproval) :
    Honest policy saved (s.askUser call waiter) := by
  have hleft : LeftToUser policy s waiter call.key := ⟨call, hcall, rfl, hcheck⟩
  unfold AgentApprovals.askUser AgentApprovals.consumeGrant
  split_ifs with halways honce
  · exact h.fire ⟨call.key, hleft, fun _ => h.always _ halways⟩ nofun
  · have hused := h.useGrant hcall hcheck honce
    exact hused.withFrames (List.forall_mem_cons.mpr ⟨trivial, hused.looped⟩)
  · cases hlookup : s.pendingByKey.lookup call.key with
    | some id => exact (h.addWaiter (hlinked.lookup_some hlookup).2 hleft).emit
    | none => exact (h.addRequest hleft).emit

theorem grows_settle (s : AgentApprovals) (id : Nat) (request : Request) (verdict : Verdict) :
    Grows s (s.settle id request verdict) := by
  refine ⟨List.prefix_rfl, List.prefix_append _ _, fun other held hheld => ?_⟩
  refine ⟨if id = other then { held with resolved := true } else held, ?_, ?_⟩
  · rw [AgentApprovals.settle, List.getElem?_modify, hheld]
    split_ifs <;> rfl
  · split_ifs <;> rfl

/-- The grants for one call are those of the verdicts, with the one that is new. -/
theorem grants_settle (h : Honest policy saved s) {id : Nat} {request : Request}
    (hrequest : s.requests[id]? = some request) (verdict : Verdict) (key : String) :
    (s.settle id request verdict).verdicts.countP (grants (s.settle id request verdict) key false) =
      s.verdicts.countP (grants s key false) +
        if verdict = .approve false ∧ request.call.key = key ∧
          request.call.context.grantOnApprove = true then 1 else 0 := by
  have hgrows := grows_settle s id request verdict
  have hid : id < s.requests.length := (List.getElem?_eq_some_iff.mp hrequest).1
  refine (List.countP_append ..).trans ?_
  have hold : s.verdicts.countP (grants (s.settle id request verdict) key false) =
      s.verdicts.countP (grants s key false) :=
    List.countP_congr fun other hother => by rw [hgrows.grants_eq (h.judged other hother)]
  rw [hold, List.countP_singleton, hgrows.grants_eq hid]
  simp [grants, hrequest]

/-- A request is settled, and the grants are those that its verdict leaves. -/
theorem Honest.settle (h : Honest policy saved s) {id : Nat} {request : Request}
    (hrequest : s.requests[id]? = some request) {verdict : Verdict}
    (hsame : SameCalls (s.settle id request verdict) t)
    (halways : ∀ key ∈ t.alwaysGrants, key ∈ s.alwaysGrants ∨ key = request.call.key ∧
      verdict = .approve true ∧ request.call.context.grantOnApprove = true)
    (honce : ∀ key, t.approvalGrants key = s.approvalGrants key +
      if verdict = .approve false ∧ request.call.key = key ∧
        request.call.context.grantOnApprove = true then 1 else 0) : Honest policy saved t := by
  have hsettled := grows_settle s id request verdict
  have hgrows : Grows s t := by
    refine ⟨?_, ?_, fun other held hheld => ?_⟩
    · rw [hsame.asked]
      exact hsettled.asked
    · rw [hsame.verdicts]
      exact hsettled.verdicts
    · rw [hsame.requests]
      exact hsettled.requests other held hheld
  have hgrants : ∀ key always, grants t key always =
      grants (s.settle id request verdict) key always := by
    intro key always
    funext other
    rw [grants, grants, hsame.requests]
  have hid : id < s.requests.length := (List.getElem?_eq_some_iff.mp hrequest).1
  refine h.grow hgrows hsame.fired hsame.frames (fun other held hheld waiter hwaiter => ?_)
    (fun key hkey => ?_) (fun key => ?_) fun judged hjudged => ?_
  · rw [hsame.requests, AgentApprovals.settle, List.getElem?_modify] at hheld
    cases hbefore : s.requests[other]? with
    | none =>
      rw [hbefore] at hheld
      cases hheld
    | some before =>
      rw [hbefore] at hheld
      obtain rfl := Option.some.inj hheld
      have hleft := h.waiting other before hbefore waiter
      by_cases heq : id = other
      · simp only [heq, if_true] at hwaiter ⊢
        exact hgrows.leftToUser (hleft hwaiter)
      · simp only [heq, if_false] at hwaiter ⊢
        exact hgrows.leftToUser (hleft hwaiter)
  · obtain hold | ⟨rfl, hverdict, hgrant⟩ := halways key hkey
    · exact (h.always key hold).imp_right hgrows.any_grants
    · refine .inr (List.any_eq_true.mpr ⟨(id, verdict), ?_, ?_⟩)
      · rw [hsame.verdicts]
        exact List.mem_append_right _ (List.mem_singleton_self _)
      · rw [hgrants, hsettled.grants_eq hid]
        simp [grants, hrequest, hverdict, hgrant]
  · rw [honce key, hsame.verdicts, hgrants, grants_settle h hrequest verdict key, ← h.ledger key,
      Nat.add_assoc]
  · rw [hsame.verdicts] at hjudged
    rw [hsame.requests, AgentApprovals.settle, List.length_modify]
    obtain hold | hnew := List.mem_append.mp hjudged
    · exact h.judged judged hold
    · obtain rfl := List.mem_singleton.mp hnew
      exact hid

/-- Only a verdict for always adds to the grants for always, and only its own key. -/
theorem mem_alwaysGrants {call : Asked} {verdict : Verdict} {saves : Bool} {key : String}
    (h : key ∈ (after (s.grantVerdict call verdict saves)).alwaysGrants) :
    key ∈ s.alwaysGrants ∨ key = call.key ∧ verdict = .approve true ∧
      call.context.grantOnApprove = true := by
  obtain ⟨hsame, -⟩ | ⟨hsame, -⟩ | ⟨keys, hsame, hverdict⟩ :=
    grantVerdict_cases s call verdict saves
  · exact .inl (hsame ▸ h)
  · rw [hsame] at h
    exact .inl h
  · rw [hsame] at h
    change key ∈ (if call.key ∈ s.alwaysGrants then s.alwaysGrants
      else s.alwaysGrants ++ [call.key]) at h
    split_ifs at h
    · exact .inl h
    · obtain hold | hnew := List.mem_append.mp h
      · exact .inl hold
      · exact .inr ⟨List.mem_singleton.mp hnew, hverdict⟩

theorem approvalGrants_grantVerdict (s : AgentApprovals) (call : Asked) (verdict : Verdict)
    (saves : Bool) (key : String) :
    (after (s.grantVerdict call verdict saves)).approvalGrants key = s.approvalGrants key +
      if verdict = .approve false ∧ call.key = key ∧ call.context.grantOnApprove = true then 1
      else 0 := by
  obtain ⟨hsame, hnot⟩ | ⟨hsame, hverdict, hgrant⟩ | ⟨keys, hsame, hverdict, -⟩ :=
    grantVerdict_cases s call verdict saves
  · rw [hsame, if_neg fun hall => hnot ⟨hall.1, hall.2.2⟩, Nat.add_zero]
  · rw [hsame]
    change Function.update s.approvalGrants call.key _ key = _
    by_cases hkey : call.key = key
    · rw [if_pos ⟨hverdict, hkey, hgrant⟩, ← hkey, Function.update_self]
    · rw [if_neg fun hall => hkey hall.2.1, Function.update_of_ne (Ne.symm hkey), Nat.add_zero]
  · have hnot : ¬ (verdict = .approve false ∧ call.key = key ∧
        call.context.grantOnApprove = true) := by simp [hverdict]
    rw [hsame, if_neg hnot, Nat.add_zero]

/-- A verdict with the grant it leaves. -/
theorem Honest.grantVerdict (h : Honest policy saved s) {id : Nat} {request : Request}
    (hrequest : s.requests[id]? = some request) (verdict : Verdict) (saves : Bool) :
    Honest policy saved
      (after ((s.settle id request verdict).grantVerdict request.call verdict saves)) :=
  h.settle hrequest (grantVerdict_same ..)
    (fun _ hkey => mem_alwaysGrants (s := s.settle id request verdict) hkey)
    fun key => approvalGrants_grantVerdict _ request.call verdict saves key

theorem Honest.resolve (h : Honest policy saved s) (id : Nat) (verdict : Verdict) (saves : Bool) :
    Honest policy saved (s.resolve id verdict saves) := by
  unfold AgentApprovals.resolve
  cases hrequest : s.requests[id]? with
  | none => exact h
  | some request =>
    dsimp only
    split_ifs with hresolved
    · exact h
    · have hgranted := h.grantVerdict hrequest verdict saves
      have hsame := grantVerdict_same (s.settle id request verdict) request.call verdict saves
      cases hgrant : (s.settle id request verdict).grantVerdict request.call verdict saves with
      | error raised => rwa [hgrant] at hgranted
      | ok granted =>
        rw [hgrant] at hgranted hsame
        refine hgranted.callWaiters ⟨nofun, fun waiter hwaiter => ?_⟩
        have hheld : granted.requests[id]? = some { request with resolved := true } := by
          rw [show granted.requests = _ from hsame.requests]
          simp [AgentApprovals.settle, hrequest]
        have hverdicts : granted.verdicts = s.verdicts ++ [(id, verdict)] := hsame.verdicts
        refine ⟨_, verdict, hheld, hgranted.waiting id _ hheld waiter hwaiter, ?_, rfl⟩
        change (id, verdict) ∈ granted.verdicts
        rw [hverdicts]
        exact List.mem_append_right _ (List.mem_singleton_self _)

theorem Honest.step (h : Honest policy saved s) (hlinked : Linked s) (action : Action) :
    Honest policy saved (step policy s action) := by
  cases action with
  | requestRisk call =>
    change Honest policy saved (s.requestRisk policy call)
    unfold AgentApprovals.requestRisk
    have hcall : (s.asked ++ [call])[s.asked.length]? = some call := by simp
    cases hcheck : checkRisk policy call.risk call.context with
    | error message => exact h
    | ok state =>
      cases state with
      | approved => exact (h.ask call).fire ⟨call, hcall, hcheck⟩ nofun
      | denied => exact (h.ask call).fire ⟨call, hcall, hcheck⟩ nofun
      | needsApproval => exact (h.ask call).askUser (hlinked.of_same rfl rfl rfl) hcall hcheck
  | resolve id verdict saves => exact h.resolve id verdict saves
  | returns =>
    change Honest policy saved s.returns
    unfold AgentApprovals.returns
    split
    · exact h
    next frames hframes =>
      refine h.withFrames fun frame hframe => h.looped frame ?_
      rw [hframes]
      exact List.mem_cons_of_mem _ hframe
    next rest answer frames hframes =>
      have hlooped := h.looped (.waiters rest answer) (by rw [hframes]; exact List.mem_cons_self)
      have hpopped : Honest policy saved { s with frames := frames } := by
        refine h.withFrames fun frame hframe => h.looped frame ?_
        rw [hframes]
        exact List.mem_cons_of_mem _ hframe
      exact hpopped.callWaiters hlooped
  | raises =>
    refine h.withFrames fun frame hframe => h.looped frame ?_
    exact List.mem_of_mem_tail hframe

/-- One approval lets one call through, and the next one waits again. -/
example : (([.requestRisk ⟨"shell", "run", ⟨some "sh", none, some "{}", some "0", true⟩⟩, .returns,
      .resolve 0 (.approve false) true, .returns, .returns,
      .requestRisk ⟨"shell", "run", ⟨some "sh", none, some "{}", some "0", true⟩⟩, .returns,
      .requestRisk ⟨"shell", "run", ⟨some "sh", none, some "{}", some "0", true⟩⟩] :
    List Action).foldl (step fun _ => none) (load [])).fired =
      [(0, .byUser 0 true), (1, .byGrant false)] := by decide

end Backing

end Space2.Approvals
