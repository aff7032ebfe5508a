import Mathlib.Data.List.Basic

/-!
# The touch router

Touches become mouse events, drags of a target or a gesture of two contacts. What the router sends
out is a log. The callbacks return and do not call the router, an absent one behaves as one that
returns at once, and their answers come with the touch event. Positions are the business of the
environment: how a contact is built from an event, what is sent for it and how far it has moved.
-/
namespace Space2.Touch

/-- `P` is a payload, `K` the key of a contact, `C` a contact and `T` a target of drags. -/
structure Env (P K C T : Type) where
  key : P → K
  /-- `build-contact`, from an event and the contact that is there -/
  build : P → Option C → C
  /-- `payload-from-contact` -/
  resolve : Option C → Option P → P
  /-- whether the contact has moved as far as the target asks, where a bad threshold raises -/
  reached : C → T → Except String Bool
  /-- `defer-mouse-when-drag-candidate?` -/
  defersMouse : Bool

inductive Output (P T : Type) where
  | mouseDown (payload : P)
  | mouseMotion (payload : P)
  | mouseUp (payload : P) (suppressClick canceled : Bool)
  | candidateStart (target : T) (payload : P)
  | candidateEnd (target : T) (payload : P)
  | candidateCancel (target : T) (payload : P)
  | dragStart (target : T) (payload : P) (accepted : Bool)
  | drag (target : T) (payload : P)
  | dragEnd (target : T) (payload : P) (canceled : Bool)
  | multitouchStart (accepted : Bool)
  | multitouchMotion
  | multitouchEnd (canceled : Bool)
deriving DecidableEq, Repr

structure Router (P K C T : Type) where
  /-- the contacts of the session in the order of their first events -/
  contacts : List (K × C)
  primary : Option K
  mouseActive : Bool
  mouseDeferred : Bool
  blockedMultitouch : Bool
  dragCandidate : Option T
  captured : Option T
  multitouchActive : Bool
  /-- everything sent so far, the last one last -/
  log : List (Output P T)

/-- What happens to the router, with the answers of `allow-touch?`, `select-drag-candidate`,
`on-touch-drag-start` and `on-multitouch-start`. -/
inductive Action (P T : Type) where
  | down (payload : P) (allowed : Bool) (candidate : Option T) (startsMultitouch : Bool)
  | motion (payload : P) (allowed startsDrag : Bool)
  | finished (payload : P) (allowed canceled : Bool)
  | reset
deriving DecidableEq, Repr

namespace Router
variable {P K C T : Type} [DecidableEq K]

def idle : Router P K C T := ⟨[], none, false, false, false, none, none, false, []⟩

section Session
variable (env : Env P K C T) (r : Router P K C T)

def count : Nat := r.contacts.length

def contact (key : K) : Option C := r.contacts.lookup key

def primaryContact : Option C := r.primary.bind r.contact

/-- `set-contact!` -/
def setContact (payload : P) : Router P K C T :=
  let key := env.key payload
  match r.contact key with
  | some existing => { r with contacts := r.contacts.map fun entry =>
      if entry.1 = key then (key, env.build payload (some existing)) else entry }
  | none => { r with contacts := r.contacts ++ [(key, env.build payload none)] }

/-- The session's `on-touch-up`: the contact with the last event, and the session without it. -/
def lift (payload : P) : Option C × Router P K C T :=
  let key := env.key payload
  match r.contact key with
  | some existing =>
    (some (env.build payload (some existing)),
      { r with contacts := r.contacts.filter (·.1 ≠ key) })
  | none => (none, r)

end Session

section Sending
variable (env : Env P K C T) (r : Router P K C T)

def send (output : Output P T) : Router P K C T := { r with log := r.log ++ [output] }

/-- The payload for the contact, or for the primary one. -/
def resolved (contact : Option C) (payload : Option P) : P :=
  env.resolve (contact.or r.primaryContact) payload

def notifyCandidate (output : T → P → Output P T) (payload : Option P) (contact : Option C) :
    Router P K C T :=
  match r.dragCandidate with
  | some target => r.send (output target (r.resolved env contact payload))
  | none => r

def clearSingle : Router P K C T :=
  { r with primary := none, dragCandidate := none, captured := none, mouseActive := false,
           mouseDeferred := false }

def resetBlockedIfIdle : Router P K C T :=
  if r.count = 0 then { r with blockedMultitouch := false } else r

def releaseMouse (payload : Option P) (suppressClick canceled : Bool) (contact : Option C) :
    Router P K C T :=
  if r.mouseActive = true then
    { r.send (.mouseUp (r.resolved env contact payload) suppressClick canceled) with
      mouseActive := false }
  else r

def dispatchDeferredClick (payload : Option P) (contact : Option C) : Router P K C T :=
  let payload := r.resolved env contact payload
  { (r.send (.mouseDown payload)).send (.mouseUp payload false false) with mouseDeferred := false }

def finishCaptured (payload : Option P) (canceled : Bool) (contact : Option C) : Router P K C T :=
  match r.captured with
  | some target =>
    { r.send (.dragEnd target (r.resolved env contact payload) canceled) with
      captured := none, dragCandidate := none }
  | none => r

def cancelSingle (payload : Option P) : Router P K C T :=
  { (((r.finishCaptured env payload true none).notifyCandidate env .candidateCancel payload
      none).releaseMouse env payload true true none) with mouseDeferred := false }

def stopMultitouch (canceled : Bool) : Router P K C T :=
  if r.multitouchActive = true then
    { r.send (.multitouchEnd canceled) with multitouchActive := false }
  else r

/-- `reset-router!` -/
def resetRouter (payload : Option P) : Router P K C T :=
  let r := r.stopMultitouch true
  let r := if r.primary.isSome = true then r.cancelSingle env payload else r
  { r.clearSingle with blockedMultitouch := false, contacts := [] }

end Sending

section Down
variable (env : Env P K C T) (r : Router P K C T)

def setPrimary (payload : P) (candidate : Option T) : Router P K C T :=
  let r := { r with primary := some (env.key payload), dragCandidate := candidate }
  let r := r.notifyCandidate env .candidateStart (some payload) none
  if candidate.isSome = true ∧ env.defersMouse = true then
    { r with mouseActive := false, mouseDeferred := true }
  else { r.send (.mouseDown payload) with mouseActive := true, mouseDeferred := false }

/-- Whether the gesture starts, and the router afterwards. -/
def startMultitouch (starts : Bool) : Bool × Router P K C T :=
  if r.count = 2 then
    (starts, { r.send (.multitouchStart starts) with
      multitouchActive := starts || r.multitouchActive })
  else (false, r)

/-- A third contact ends the gesture. -/
def handleActiveMultitouchDown : Router P K C T :=
  if 2 < r.count then { r.stopMultitouch true with blockedMultitouch := true } else r

def handleSingleTouchDown (payload : P) (candidate : Option T) (startsMultitouch : Bool) :
    Router P K C T :=
  if r.blockedMultitouch = true then r
  else
    match r.primary with
    | none => r.setPrimary env payload candidate
    | some primary =>
      if env.key payload = primary then r
      else
        match (r.cancelSingle env (some payload)).startMultitouch startsMultitouch with
        | (true, r) => r
        | (false, r) => { r with blockedMultitouch := true }

/-- A touch that is not allowed resets a router that has contacts. -/
def refuse (payload : P) : Router P K C T :=
  if 0 < r.count then r.resetRouter env (some payload) else r

def onTouchDown (payload : P) (allowed : Bool) (candidate : Option T) (startsMultitouch : Bool) :
    Router P K C T :=
  if allowed = true then
    let r := (r.setContact env payload).resetBlockedIfIdle
    if r.multitouchActive = true then r.handleActiveMultitouchDown
    else r.handleSingleTouchDown env payload candidate startsMultitouch
  else r.refuse env payload

end Down

section Motion
variable (env : Env P K C T) (r : Router P K C T)

/-- What `try-start-capture!` does once the target has taken the drag. -/
def capture (target : T) (payload : P) (contact : C) : Router P K C T :=
  let r := r.releaseMouse env (some payload) true false (some contact)
  { r.send (.drag target payload) with
    mouseDeferred := false, captured := some target, dragCandidate := none }

/-- `try-start-capture!`, where a bad threshold raises before anything is sent. -/
def tryStartCapture (payload : P) (startsDrag : Bool) : Except String (Bool × Router P K C T) :=
  match r.dragCandidate, r.primaryContact with
  | some target, some contact => do
    if ← env.reached contact target then
      let payload := env.resolve (some contact) (some payload)
      let r := r.send (.dragStart target payload startsDrag)
      if startsDrag = true then pure (true, r.capture env target payload contact)
      else pure (false, r)
    else pure (false, r)
  | _, _ => pure (false, r)

def handleSingleTouchMotion (payload : P) (startsDrag : Bool) : Router P K C T :=
  if r.blockedMultitouch = true then r
  else if r.primary ≠ some (env.key payload) then r
  else
    match r.captured with
    | some target => r.send (.drag target (env.resolve r.primaryContact (some payload)))
    | none =>
      match r.tryStartCapture env payload startsDrag with
      | .error _ => r
      | .ok (true, r) => r
      | .ok (false, r) =>
        if r.mouseActive = true then
          r.send (.mouseMotion (env.resolve r.primaryContact (some payload)))
        else r

def handleActiveMultitouchMotion : Router P K C T :=
  if 2 < r.count then { r.stopMultitouch true with blockedMultitouch := true }
  else r.send .multitouchMotion

def onTouchMotion (payload : P) (allowed startsDrag : Bool) : Router P K C T :=
  if allowed = true then
    let r := r.setContact env payload
    if r.multitouchActive = true then r.handleActiveMultitouchMotion
    else r.handleSingleTouchMotion env payload startsDrag
  else r.refuse env payload

end Motion

section Finished
variable (env : Env P K C T) (r : Router P K C T)

def completeSingle (payload : P) (canceled : Bool) (contact : Option C) : Router P K C T :=
  if r.captured.isSome = true then r.finishCaptured env (some payload) canceled contact
  else
    let r := r.notifyCandidate env (if canceled then .candidateCancel else .candidateEnd)
      (some payload) contact
    if canceled = true then
      { r.releaseMouse env (some payload) true true contact with mouseDeferred := false }
    else if r.mouseDeferred = true then r.dispatchDeferredClick env (some payload) contact
    else r.releaseMouse env (some payload) false false contact

def handleActiveMultitouchFinished (canceled : Bool) : Router P K C T :=
  if r.count < 2 then
    let r := r.stopMultitouch canceled
    { r with blockedMultitouch := decide (0 < r.count) }
  else r

def handleSingleTouchFinished (payload : P) (canceled isPrimary : Bool) (contact : Option C) :
    Router P K C T :=
  if r.blockedMultitouch = true then
    (if isPrimary = true ∧ r.count = 0 then r.clearSingle else r).resetBlockedIfIdle
  else if isPrimary = true then
    let r := (r.completeSingle env payload canceled contact).clearSingle
    (if 0 < r.count then { r with blockedMultitouch := true } else r).resetBlockedIfIdle
  else r

def onTouchFinished (payload : P) (allowed canceled : Bool) : Router P K C T :=
  if allowed = true then
    let isPrimary := decide (r.primary = some (env.key payload))
    let (contact, r) := r.lift env payload
    if r.multitouchActive = true then r.handleActiveMultitouchFinished canceled
    else r.handleSingleTouchFinished env payload canceled isPrimary contact
  else r.refuse env payload

end Finished

end Router

def step {P K C T : Type} [DecidableEq K] (env : Env P K C T) (r : Router P K C T) :
    Action P T → Router P K C T
  | .down payload allowed candidate startsMultitouch =>
    r.onTouchDown env payload allowed candidate startsMultitouch
  | .motion payload allowed startsDrag => r.onTouchMotion env payload allowed startsDrag
  | .finished payload allowed canceled => r.onTouchFinished env payload allowed canceled
  | .reset => r.resetRouter env none

end Space2.Touch
