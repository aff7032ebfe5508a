import Mathlib.Algebra.Order.Group.Nat
import Space2.Base.Runs

/-!
# The turn of an agent

A turn calls out to a cancel hook and to callbacks, and these may call the turn again before they
return. The calls that wait for one of them to return stand on a stack, and a run is any order of
calls, returns and errors. An absent callback behaves as one that returns at once.
-/
namespace Space2.Agents
open Base

inductive Status where
  | created
  | running
  | completed
  | failed
  | cancelled
deriving DecidableEq, Repr

/-- What ends a turn. -/
inductive Ending (R : Type) where
  | completed (result : R)
  | failed (error : String)
  | cancelled
deriving DecidableEq, Repr

/-- A callback with what it is called with. `R` is a turn's result, `I` an item, `U` its updates. -/
inductive Event (R I U : Type) where
  | onStatus (status : Status)
  | onItem (item : I)
  | onUpdate (itemId : String) (updates : U)
  | onUpsert (item : I)
  | persist
  | onComplete (status : Status) (result : R)
  | onError (status : Status) (error : Option String)
deriving DecidableEq, Repr

/-- What waits for the function that runs now. -/
inductive Frame (R : Type) where
  /-- `handle-cancel`, for the cancel hook -/
  | hook
  /-- an ending, for `persist` -/
  | persisting (ending : Ending R)
  /-- nothing -/
  | callback
deriving DecidableEq, Repr

structure Turn (R I U : Type) where
  status : Status
  result : Option R
  errorMsg : Option String
  /-- whether there is a `cancel-fn` -/
  cancelFn : Bool
  cancelled : Bool
  /-- the innermost first -/
  frames : List (Frame R)
  /-- every callback so far, the last one last -/
  fired : List (Event R I U)
deriving DecidableEq, Repr

variable {R I U : Type}

namespace Turn

def created : Turn R I U := ⟨.created, none, none, false, false, [], []⟩

def fireCallback (t : Turn R I U) (event : Event R I U) : Turn R I U :=
  { t with frames := .callback :: t.frames, fired := t.fired ++ [event] }

/-- `persist` comes before the callback of the ending. -/
def persist (t : Turn R I U) (ending : Ending R) : Turn R I U :=
  { t with frames := .persisting ending :: t.frames, fired := t.fired ++ [.persist] }

def deliver (t : Turn R I U) : Ending R → Turn R I U
  | .completed result => t.fireCallback (.onComplete .completed result)
  | .failed error => t.fireCallback (.onError .failed (some error))
  | .cancelled => t.fireCallback (.onError .cancelled t.errorMsg)

def appendItem (t : Turn R I U) (item : I) : Turn R I U := t.fireCallback (.onItem item)

def updateItem (t : Turn R I U) (itemId : String) (updates : U) : Turn R I U :=
  t.fireCallback (.onUpdate itemId updates)

def upsertItem (t : Turn R I U) (item : I) : Turn R I U := t.fireCallback (.onUpsert item)

/-- Only a function is set. -/
def setCancel (t : Turn R I U) (isFunction : Bool) : Turn R I U :=
  if isFunction = true then { t with cancelFn := true } else t

def finish (t : Turn R I U) (result : R) : Turn R I U :=
  if t.status = .running then
    { t with status := .completed, result := some result }.persist (.completed result)
  else t

def fail (t : Turn R I U) (error : String) : Turn R I U :=
  if t.status = .running then
    { t with status := .failed, errorMsg := some error }.persist (.failed error)
  else t

/-- `handle-cancel` after the hook. -/
def afterHook (t : Turn R I U) (cancelError : Option String) : Turn R I U :=
  { t with
    status := .cancelled
    errorMsg := some (match cancelError with
      | some error => "turn cancelled; cancel hook failed: " ++ error
      | none => "turn cancelled") }.persist .cancelled

def cancel (t : Turn R I U) : Turn R I U :=
  if t.status = .running then
    if t.cancelFn = true then { t with cancelled := true, frames := .hook :: t.frames }
    else { t with cancelled := true }.afterHook none
  else t

def start (t : Turn R I U) : Turn R I U :=
  if t.status = .created then { t with status := .running }.fireCallback (.onStatus .running) else t

/-- The function that runs now returns. -/
def returns (t : Turn R I U) : Turn R I U :=
  match t.frames with
  | [] => t
  | .hook :: frames => { t with frames := frames }.afterHook none
  | .persisting ending :: frames => { t with frames := frames }.deliver ending
  | .callback :: frames => { t with frames := frames }

/-- Only the hook is called under `pcall`. -/
def raises (t : Turn R I U) (error : String) : Turn R I U :=
  match t.frames with
  | [] => t
  | .hook :: frames => { t with frames := frames }.afterHook (some error)
  | .persisting _ :: frames => { t with frames := frames }
  | .callback :: frames => { t with frames := frames }

end Turn

/-- What the code outside the turn does, within a callback or not. -/
inductive Action (R I U : Type) where
  | start
  | cancel
  | finish (result : R)
  | fail (error : String)
  | appendItem (item : I)
  | updateItem (itemId : String) (updates : U)
  | upsertItem (item : I)
  | setCancel (isFunction : Bool)
  | returns
  | raises (error : String)
deriving DecidableEq, Repr

def step (t : Turn R I U) : Action R I U → Turn R I U
  | .start => t.start
  | .cancel => t.cancel
  | .finish result => t.finish result
  | .fail error => t.fail error
  | .appendItem item => t.appendItem item
  | .updateItem itemId updates => t.updateItem itemId updates
  | .upsertItem item => t.upsertItem item
  | .setCancel isFunction => t.setCancel isFunction
  | .returns => t.returns
  | .raises error => t.raises error

def Status.ended : Status → Bool
  | .created | .running => false
  | .completed | .failed | .cancelled => true

def Event.isEnding : Event R I U → Bool
  | .onComplete .. | .onError .. => true
  | _ => false

def Event.isItem : Event R I U → Bool
  | .onItem _ | .onUpdate .. | .onUpsert _ => true
  | _ => false

def Frame.isHook : Frame R → Bool
  | .hook => true
  | _ => false

def Frame.isPersisting : Frame R → Bool
  | .persisting _ => true
  | _ => false

namespace Turn

def items (t : Turn R I U) : List (Event R I U) := t.fired.filter Event.isItem
def delivered (t : Turn R I U) : Nat := t.fired.countP Event.isEnding
def hooks (t : Turn R I U) : Nat := t.frames.countP Frame.isHook
def undelivered (t : Turn R I U) : Nat := t.frames.countP Frame.isPersisting

end Turn

/-- The step leaves exactly one end delivered, or none yet, and one that finds the turn ended leaves
its status and its items. -/
structure EndsOnce (t : Turn R I U) (action : Action R I U) : Prop where
  one : (step t action).status.ended = true → (step t action).undelivered = 0 →
    (step t action).delivered = 1
  status : t.status.ended = true → (step t action).status = t.status
  items : t.status.ended = true → (step t action).items = t.items

/-- Nothing ends a turn while its cancel hook runs, no item comes after its end, and `persist` does
not raise. -/
def Orderly (t : Turn R I U) : Action R I U → Prop
  | .cancel | .finish _ | .fail _ => t.hooks = 0
  | .appendItem _ | .updateItem .. | .upsertItem _ => t.status.ended = false
  | .raises _ => t.frames.head?.any Frame.isPersisting = false
  | _ => True

instance (t : Turn R I U) (action : Action R I U) : Decidable (Orderly t action) := by
  cases action <;> unfold Orderly <;> infer_instance

/-- A turn that has ended has one end, delivered or waiting for `persist`; one that has not has none
and at most one cancel that waits for its hook. -/
structure Turn.OneEnd (t : Turn R I U) : Prop where
  ends : t.undelivered + t.delivered = if t.status.ended = true then 1 else 0
  oneHook : t.hooks ≤ if t.status = .running then 1 else 0

namespace Turn
variable {t u : Turn R I U} {event : Event R I U} {ending : Ending R}

@[simp] theorem hooks_fireCallback : (t.fireCallback event).hooks = t.hooks := by
  simp [hooks, fireCallback, Frame.isHook]

@[simp] theorem undelivered_fireCallback :
    (t.fireCallback event).undelivered = t.undelivered := by
  simp [undelivered, fireCallback, Frame.isPersisting]

@[simp] theorem delivered_fireCallback :
    (t.fireCallback event).delivered = t.delivered + if event.isEnding = true then 1 else 0 := by
  simp [delivered, fireCallback, List.countP_cons]

@[simp] theorem hooks_persist : (t.persist ending).hooks = t.hooks := by
  simp [hooks, persist, Frame.isHook]

@[simp] theorem undelivered_persist : (t.persist ending).undelivered = t.undelivered + 1 :=
  List.countP_cons_of_pos rfl

@[simp] theorem delivered_persist : (t.persist ending).delivered = t.delivered := by
  simp [delivered, persist, Event.isEnding]

theorem OneEnd.of_same (h : t.OneEnd) (hstatus : u.status = t.status) (hhooks : u.hooks = t.hooks)
    (hundelivered : u.undelivered = t.undelivered) (hdelivered : u.delivered = t.delivered) :
    u.OneEnd := by
  constructor
  · rw [hundelivered, hdelivered, hstatus]
    exact h.ends
  · rw [hhooks, hstatus]
    exact h.oneHook

/-- A callback other than that of an end. -/
theorem OneEnd.fireCallback (h : t.OneEnd) (hevent : event.isEnding = false) :
    (t.fireCallback event).OneEnd :=
  h.of_same rfl hooks_fireCallback undelivered_fireCallback (by simp [hevent])

/-- A turn that runs, without a cancel that waits, ends. -/
theorem OneEnd.ended (h : t.OneEnd) (hrunning : t.status = .running) (hhooks : u.hooks = 0)
    (hended : u.status.ended = true) (hundelivered : u.undelivered = t.undelivered)
    (hdelivered : u.delivered = t.delivered) : (u.persist ending).OneEnd := by
  have hends := h.ends
  rw [hrunning] at hends
  constructor
  · rw [undelivered_persist, delivered_persist, hundelivered, hdelivered]
    change _ = if u.status.ended = true then 1 else 0
    rw [if_pos hended]
    simp only [Status.ended, Bool.false_eq_true, if_false] at hends
    omega
  · rw [hooks_persist, hhooks]
    exact Nat.zero_le _

theorem OneEnd.start (h : t.OneEnd) : t.start.OneEnd := by
  unfold Turn.start
  split_ifs with hcreated
  · have hhooks := h.oneHook
    have hends := h.ends
    rw [hcreated] at hhooks hends
    apply OneEnd.fireCallback _ rfl
    exact ⟨hends, Nat.le_trans hhooks (Nat.zero_le _)⟩
  · exact h

theorem OneEnd.finish (h : t.OneEnd) (hhooks : t.hooks = 0) (result : R) :
    (t.finish result).OneEnd := by
  unfold Turn.finish
  split_ifs with hrunning
  · exact h.ended hrunning hhooks rfl rfl rfl
  · exact h

theorem OneEnd.fail (h : t.OneEnd) (hhooks : t.hooks = 0) (error : String) :
    (t.fail error).OneEnd := by
  unfold Turn.fail
  split_ifs with hrunning
  · exact h.ended hrunning hhooks rfl rfl rfl
  · exact h

theorem OneEnd.cancel (h : t.OneEnd) (hhooks : t.hooks = 0) : t.cancel.OneEnd := by
  unfold Turn.cancel
  split_ifs with hrunning hhook
  · constructor
    · have hends := h.ends
      simpa [undelivered, delivered, Frame.isPersisting] using hends
    · have hone : (Frame.hook :: t.frames : List (Frame R)).countP Frame.isHook = 1 := by
        rw [List.countP_cons_of_pos rfl]
        exact congrArg (· + 1) hhooks
      change (Frame.hook :: t.frames : List (Frame R)).countP Frame.isHook ≤
        if t.status = .running then 1 else 0
      rw [hone, if_pos hrunning]
  · exact h.ended hrunning hhooks rfl rfl rfl
  · exact h

/-- The frame that waits for a hook is the only one. -/
theorem OneEnd.afterHook (h : t.OneEnd) {frames : List (Frame R)} (hframes : t.frames = .hook :: frames)
    (cancelError : Option String) : ({ t with frames := frames }.afterHook cancelError).OneEnd := by
  have hcount : t.hooks = frames.countP Frame.isHook + 1 := by
    rw [hooks, hframes, List.countP_cons_of_pos rfl]
  have hbound := h.oneHook
  rw [hcount] at hbound
  have hrunning : t.status = .running := by
    by_contra hnot
    rw [if_neg hnot] at hbound
    omega
  rw [if_pos hrunning] at hbound
  refine h.ended hrunning ?_ rfl ?_ rfl
  · change frames.countP Frame.isHook = 0
    omega
  · change frames.countP Frame.isPersisting = t.undelivered
    rw [undelivered, hframes, List.countP_cons_of_neg (by simp [Frame.isPersisting])]

/-- The end that waited for `persist` is delivered. -/
theorem OneEnd.deliver (h : t.OneEnd) {frames : List (Frame R)}
    (hframes : t.frames = .persisting ending :: frames) :
    ({ t with frames := frames }.deliver ending).OneEnd := by
  have hcount : t.undelivered = frames.countP Frame.isPersisting + 1 := by
    rw [undelivered, hframes, List.countP_cons_of_pos rfl]
  have hhooks : frames.countP Frame.isHook = t.hooks := by
    rw [hooks, hframes, List.countP_cons_of_neg (by simp [Frame.isHook])]
  have hdelivers : ∀ event : Event R I U, event.isEnding = true →
      ({ t with frames := frames }.fireCallback event).OneEnd := by
    intro event hevent
    constructor
    · rw [undelivered_fireCallback, delivered_fireCallback, if_pos hevent]
      change frames.countP Frame.isPersisting + (t.delivered + 1) = _
      have hends := h.ends
      rw [hcount] at hends
      change _ = if t.status.ended = true then 1 else 0
      omega
    · rw [hooks_fireCallback]
      exact Nat.le_trans (Nat.le_of_eq hhooks) h.oneHook
  cases ending <;> exact hdelivers _ rfl

theorem OneEnd.popped (h : t.OneEnd) {frames : List (Frame R)}
    (hframes : t.frames = .callback :: frames) : ({ t with frames := frames } : Turn R I U).OneEnd := by
  refine h.of_same rfl ?_ ?_ rfl
  · simp [hooks, hframes, Frame.isHook]
  · simp [undelivered, hframes, Frame.isPersisting]

theorem OneEnd.returns (h : t.OneEnd) : t.returns.OneEnd := by
  unfold Turn.returns
  split
  · exact h
  · exact h.afterHook ‹_› none
  · exact h.deliver ‹_›
  · exact h.popped ‹_›

theorem OneEnd.raises (h : t.OneEnd) {error : String} (horderly : Orderly t (.raises error)) :
    (t.raises error).OneEnd := by
  unfold Turn.raises
  split
  next => exact h
  next hframes => exact h.afterHook hframes (some error)
  next hframes => simp [Orderly, hframes, Frame.isPersisting] at horderly
  next hframes => exact h.popped hframes

theorem OneEnd.step {action : Action R I U} (h : t.OneEnd) (horderly : Orderly t action) :
    (step t action).OneEnd := by
  cases action with
  | start => exact h.start
  | cancel => exact h.cancel horderly
  | finish result => exact h.finish horderly result
  | fail error => exact h.fail horderly error
  | appendItem item => exact h.fireCallback rfl
  | updateItem itemId updates => exact h.fireCallback rfl
  | upsertItem item => exact h.fireCallback rfl
  | setCancel isFunction =>
    simp only [Agents.step, Turn.setCancel]
    split_ifs
    · exact h.of_same rfl rfl rfl rfl
    · exact h
  | returns => exact h.returns
  | raises error => exact h.raises horderly

theorem created_oneEnd : (created : Turn R I U).OneEnd := ⟨rfl, Nat.zero_le _⟩

@[simp] theorem items_fireCallback (h : event.isItem = false) :
    (t.fireCallback event).items = t.items := by
  simp [items, Turn.fireCallback, h]

theorem deliver_kept (t : Turn R I U) (ending : Ending R) :
    (t.deliver ending).status = t.status ∧ (t.deliver ending).items = t.items := by
  cases ending <;> exact ⟨rfl, items_fireCallback rfl⟩

/-- No cancel waits for its hook in a turn that has ended. -/
theorem OneEnd.no_hook (h : t.OneEnd) (hended : t.status.ended = true) {frames : List (Frame R)} :
    t.frames ≠ .hook :: frames := by
  intro hframes
  have hrunning : t.status ≠ .running := by
    intro hrunning
    rw [hrunning] at hended
    cases hended
  have hbound := h.oneHook
  rw [if_neg hrunning, hooks, hframes, List.countP_cons_of_pos rfl] at hbound
  omega

/-- An ended turn keeps its status and, but for calls that add or change items, its items. -/
theorem OneEnd.kept {action : Action R I U} (h : t.OneEnd) (horderly : Orderly t action)
    (hended : t.status.ended = true) :
    (Agents.step t action).status = t.status ∧ (Agents.step t action).items = t.items := by
  have hrunning : t.status ≠ .running := by
    intro hrunning
    rw [hrunning] at hended
    cases hended
  have hcreated : t.status ≠ .created := by
    intro hcreated
    rw [hcreated] at hended
    cases hended
  cases action with
  | start => simp [Agents.step, Turn.start, hcreated]
  | cancel => simp [Agents.step, Turn.cancel, hrunning]
  | finish result => simp [Agents.step, Turn.finish, hrunning]
  | fail error => simp [Agents.step, Turn.fail, hrunning]
  | appendItem item => exact absurd hended (by simp [show t.status.ended = false from horderly])
  | updateItem itemId updates =>
    exact absurd hended (by simp [show t.status.ended = false from horderly])
  | upsertItem item => exact absurd hended (by simp [show t.status.ended = false from horderly])
  | setCancel isFunction =>
    simp only [Agents.step, Turn.setCancel]
    split_ifs <;> exact ⟨rfl, rfl⟩
  | returns =>
    simp only [Agents.step, Turn.returns]
    split
    · exact ⟨rfl, rfl⟩
    next hframes => exact absurd hframes (h.no_hook hended)
    · exact deliver_kept _ _
    · exact ⟨rfl, rfl⟩
  | raises error =>
    simp only [Agents.step, Turn.raises]
    split
    · exact ⟨rfl, rfl⟩
    next hframes => exact absurd hframes (h.no_hook hended)
    · exact ⟨rfl, rfl⟩
    · exact ⟨rfl, rfl⟩

theorem OneEnd.endsOnce {action : Action R I U} (h : t.OneEnd) (horderly : Orderly t action) :
    EndsOnce t action := by
  refine ⟨?_, fun hended => (h.kept horderly hended).1, fun hended => (h.kept horderly hended).2⟩
  intro hended hundelivered
  have hends := (h.step horderly).ends
  rwa [hundelivered, if_pos hended, Nat.zero_add] at hends

end Turn

/-- In every run of calls, also from within the cancel hook and the callbacks, in which nothing ends
the turn while its hook runs, no item comes after the end and `persist` does not raise, the turn
ends once and stays as it ended. -/
theorem turn_ends_once (actions : List (Action R I U))
    (h : Along step Orderly (Turn.created : Turn R I U) actions) :
    Along step EndsOnce (Turn.created : Turn R I U) actions :=
  h.imp (fun _ _ hs horderly => hs.step horderly) (fun _ _ hs horderly => hs.endsOnce horderly)
    Turn.created_oneEnd

/-- A cancelled turn whose callback calls `finish` once more. -/
theorem cancelled_turn_ends_once :
    Along step EndsOnce (Turn.created : Turn Unit Unit Unit)
      [.start, .returns, .setCancel true, .appendItem (), .returns, .cancel, .raises "abort failed",
        .returns, .finish (), .returns, .fail "late"] :=
  turn_ends_once _ (by decide)

/-- The cancel hook finishes the turn, and then the turn is cancelled. -/
theorem hook_ends_turn_twice : ¬ ∀ actions : List (Action Unit Unit Unit),
    Along step EndsOnce Turn.created actions := by
  intro hclaim
  have hrun := hclaim [.start, .returns, .setCancel true, .cancel, .finish (), .returns, .returns,
    .returns]
  exact absurd (hrun.2.2.2.2.2.2.2.1.status rfl) (by decide)

end Space2.Agents
