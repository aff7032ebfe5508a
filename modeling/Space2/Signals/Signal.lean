import Mathlib

/-!
# Signals

A signal calls its handlers, and a handler may emit, connect, disconnect and clear
before it returns or raises. The handlers are not known here: a run is a list of what
they do, one action after the other, and the emits that are under way are on a stack.
-/
namespace Space2.Signals

variable {Handler Table Other : Type*}

inductive Value (Handler Table Other : Type*)
  | nil
  | boolean (value : Bool)
  | function (handler : Handler)
  | table (table : Table)
  | other (value : Other)

def Value.truthy : Value Handler Table Other → Bool
  | .nil => false
  | .boolean value => value
  | _ => true

/-- The record of a connection. Its number tells it from the others. -/
structure Record (Handler : Type*) where
  id : ℕ
  handler : Handler
  isActive : Bool

/-- An emit under way: the next record to look at, and the end of the loop. -/
structure Frame (Handler Table Other : Type*) where
  idx : ℕ
  count : ℕ
  actual : Value Handler Table Other

inductive Event (Handler Table Other : Type*)
  | called (id : ℕ) (handler : Handler) (payload : Value Handler Table Other)
  | returned (raised : Bool)
  | failed (message : String)

structure Signal (Handler Table Other : Type*) where
  callbacks : List (Record Handler)
  emitDepth : ℕ
  compactPending : Bool
  frames : List (Frame Handler Table Other)
  nextId : ℕ
  events : List (Event Handler Table Other)

def create : Signal Handler Table Other := ⟨[], 0, false, [], 0, []⟩

def Signal.compactCallbacks (signal : Signal Handler Table Other) : Signal Handler Table Other :=
  if signal.compactPending = true ∧ signal.emitDepth = 0 then
    { signal with callbacks := signal.callbacks.filter Record.isActive, compactPending := false }
  else signal

/-! ## Emitting -/

/-- The end of an emit, by its loop or by a handler that raised. -/
def Signal.leave (raised : Bool) (rest : List (Frame Handler Table Other)) (signal : Signal Handler Table Other) :
    Signal Handler Table Other :=
  Signal.compactCallbacks
    { signal with
      emitDepth := signal.emitDepth - 1
      frames := rest
      events := signal.events ++ [.returned raised] }

def findActive (callbacks : List (Record Handler)) : ℕ → ℕ → Option (ℕ × Record Handler)
  | _, 0 => none
  | idx, left + 1 =>
    match callbacks[idx]? with
    | some record => if record.isActive = true then some (idx, record) else findActive callbacks (idx + 1) left
    | none => findActive callbacks (idx + 1) left

theorem findActive_succ (callbacks : List (Record Handler)) (idx left : ℕ) :
    findActive callbacks idx (left + 1) =
      match callbacks[idx]? with
      | some record =>
        if record.isActive = true then some (idx, record) else findActive callbacks (idx + 1) left
      | none => findActive callbacks (idx + 1) left := rfl

/-- The loop of an emit up to its next call. -/
def Signal.resume (frame : Frame Handler Table Other) (rest : List (Frame Handler Table Other))
    (signal : Signal Handler Table Other) : Signal Handler Table Other :=
  match findActive signal.callbacks frame.idx (frame.count - frame.idx) with
  | some (idx, record) =>
    { signal with
      frames := { frame with idx := idx + 1 } :: rest
      events := signal.events ++ [.called record.id record.handler frame.actual] }
  | none => signal.leave false rest

def Signal.emit (first payload : Value Handler Table Other) (signal : Signal Handler Table Other) :
    Signal Handler Table Other :=
  let actual := if payload.truthy = true then payload else first
  Signal.resume ⟨0, signal.callbacks.length, actual⟩ signal.frames
    { signal with emitDepth := signal.emitDepth + 1 }

/-! ## Connecting -/

def Signal.fail (message : String) (signal : Signal Handler Table Other) : Signal Handler Table Other :=
  { signal with events := signal.events ++ [.failed message] }

def Signal.connect (first handler : Value Handler Table Other) (signal : Signal Handler Table Other) :
    Signal Handler Table Other :=
  match if handler.truthy = true then handler else first with
  | .function actual =>
    { signal with
      callbacks := signal.callbacks ++ [⟨signal.nextId, actual, true⟩]
      nextId := signal.nextId + 1 }
  | _ => signal.fail "Signal.connect expects a function"

variable [DecidableEq Handler]

/-- Makes the first active record of the handler inactive, if there is one. -/
def deactivate (actual : Handler) : List (Record Handler) → Option (List (Record Handler))
  | [] => none
  | record :: records =>
    if record.isActive = true ∧ record.handler = actual then some ({ record with isActive := false } :: records)
    else (deactivate actual records).map (record :: ·)

theorem deactivate_cons (actual : Handler) (record : Record Handler) (records : List (Record Handler)) :
    deactivate actual (record :: records) =
      if record.isActive = true ∧ record.handler = actual then
        some ({ record with isActive := false } :: records)
      else (deactivate actual records).map (record :: ·) := rfl

def Signal.disconnect (first handler allowMissing : Value Handler Table Other)
    (signal : Signal Handler Table Other) : Signal Handler Table Other :=
  let isTable := match first with | .table _ => true | _ => false
  let actual := if isTable = true then handler else first
  let allow := if isTable = true then allowMissing else handler
  let removed := match actual with | .function actual => deactivate actual signal.callbacks | _ => none
  match removed with
  | some callbacks => Signal.compactCallbacks { signal with callbacks := callbacks, compactPending := true }
  | none => if allow.truthy = true then signal else signal.fail "Signal handler not connected"

def Signal.clear (signal : Signal Handler Table Other) : Signal Handler Table Other :=
  Signal.compactCallbacks
    { signal with
      callbacks := signal.callbacks.map fun record => { record with isActive := false }
      compactPending := true }

/-! ## Runs -/

/-- Whether a function of the signal is called as `signal.f x` or as `signal:f x`. -/
inductive Style
  | function
  | method

/-- What the running handler does, or the program where none runs. It ends by returning or
raising; an error of a call may be caught, or be raised again by the next action. -/
inductive Action (Handler Table Other : Type*)
  | connect (style : Style) (handler : Value Handler Table Other)
  | disconnect (style : Style) (handler : Handler) (allowMissing : Bool)
  | clear
  | emit (style : Style) (payload : Value Handler Table Other)
  | finish
  | raise

def Signal.perform (self : Table) (signal : Signal Handler Table Other) :
    Action Handler Table Other → Signal Handler Table Other
  | .connect .function handler => signal.connect handler .nil
  | .connect .method handler => signal.connect (.table self) handler
  | .disconnect .function handler allow => signal.disconnect (.function handler) (.boolean allow) .nil
  | .disconnect .method handler allow => signal.disconnect (.table self) (.function handler) (.boolean allow)
  | .clear => signal.clear
  | .emit .function payload => signal.emit payload .nil
  | .emit .method payload => signal.emit (.table self) payload
  | .finish =>
    match signal.frames with
    | [] => signal
    | frame :: rest => signal.resume frame rest
  | .raise =>
    match signal.frames with
    | [] => signal
    | _ :: rest => signal.leave true rest

def run (self : Table) (actions : List (Action Handler Table Other)) : Signal Handler Table Other :=
  actions.foldl (Signal.perform self) create

end Space2.Signals
