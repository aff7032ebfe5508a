import Mathlib.Data.Finset.Basic
import Space2.Realtime.AuthTicket

/-!
# The realtime client

Callers queue commands; the worker thread takes them at each tick, lets the transport
move, hands out what came in and compares the transport's state with the one it saw
before. `Transport` is the state of the connection as the transport reports it.
-/
namespace Space2.Realtime
open Space2.Base

inductive LifecycleState
  | idle
  | connecting
  | connected
  | closed
deriving DecidableEq

inductive Transport
  | error
  | disconnected
  | connecting
  | connected
deriving DecidableEq

/-- `<= CLIENT_STATE_DISCONNECTED` -/
def Transport.isDisconnected : Transport → Bool
  | .error | .disconnected => true
  | .connecting | .connected => false

/-- A connection that was refused or lost is gone until the next connect, and an established one
does not go back to connecting. -/
def Transport.move : Transport → Transport → Transport
  | .error, _ => .error
  | .disconnected, _ => .disconnected
  | .connecting, next => next
  | .connected, .connecting => .connected
  | .connected, next => next

/-- A thread whose function has returned stays joinable. -/
inductive WorkerThread
  | none
  | looping
  | finished
deriving DecidableEq

inductive ClientCommand
  | connect (clientId : UInt64) (connectToken : Text)
  | disconnect
  | sendPayload (featureId : FeatureId) (reliable : Bool) (payload : Text)
deriving DecidableEq

inductive Report
  | connected
  | disconnected
  | featureOffered (featureId : FeatureId) (version : UInt16) (name : String)
  | featureActivated (featureId : FeatureId)
  | featureDeactivated (featureId : FeatureId)
  | message (featureId : FeatureId) (payload : Text)
  | error (text : String)
  | sent (reliable : Bool) (message : Message)
deriving DecidableEq

structure Client where
  registry : FeatureRegistry
  lifecycle : LifecycleState := .idle
  running : Bool := false
  worker : WorkerThread := .none
  connected : Bool := false
  transport : Transport := .disconnected
  previousState : Transport := .disconnected
  activeFeatures : Finset FeatureId := ∅
  commands : List ClientCommand := []
  /-- A thread was started over one that was still joinable. -/
  terminated : Bool := false
  reports : List Report := []

namespace Client

def report (client : Client) (what : Report) : Client :=
  { client with reports := client.reports ++ [what] }

/-- `Closed` is never overwritten. -/
def setLifecycle (client : Client) (state : LifecycleState) : Client :=
  if client.lifecycle = .closed then client else { client with lifecycle := state }

/-! ## Calls -/

def enqueue (client : Client) (command : ClientCommand) : Client × Option String :=
  if client.lifecycle = .closed then (client, some "realtime client is closed")
  else ({ client with commands := client.commands ++ [command] }, none)

/-- What the worker does once it has left its loop. -/
def leaveLoop (client : Client) : Client :=
  { client with transport := .disconnected, worker := .finished }.setLifecycle .idle

def join (client : Client) : Client :=
  match client.worker with
  | .looping => { client.leaveLoop with worker := .none }
  | .none | .finished => { client with worker := .none }

/-- `spawns` is false when the system refuses the thread. -/
def startWorker (client : Client) (spawns : Bool) : Client × Option String :=
  if client.lifecycle = .closed then (client, some "realtime client is closed")
  else if client.running = true then (client, none)
  else if spawns = false then (client, some "thread constructor failed")
  else if client.worker ≠ .none then ({ client with running := true, terminated := true }, none)
  else
    ({ client with running := true, worker := .looping, previousState := client.transport }, none)

def rollbackConnectStart (client : Client) : Client :=
  let cleared : Client := { client with connected := false, activeFeatures := ∅, commands := [] }
  let stopped : Client :=
    if cleared.running = true then { cleared with running := false }.join else cleared
  let idle : Client := { stopped with transport :=
    if stopped.transport.isDisconnected = true then stopped.transport else .disconnected }
  idle.setLifecycle .idle

def netcodeConnectTokenBytes : Nat := 2048

def connect (client : Client) (clientId : UInt64) (connectToken : Text) (spawns : Bool) :
    Client × Option String :=
  if client.lifecycle = .closed then (client, some "realtime client is closed")
  else if clientId = 0 then (client, some "realtime client connect requires non-zero client-id")
  else if connectToken.length ≠ netcodeConnectTokenBytes then
    (client, some "connect token size mismatch")
  else if client.lifecycle ≠ .idle then
    (client, some "realtime client is already connecting or connected")
  else
    match { client with lifecycle := .connecting }.startWorker spawns with
    | (started, some text) => (started.rollbackConnectStart, some text)
    | (started, none) =>
      match started.enqueue (.connect clientId connectToken) with
      | (queued, some text) => (queued.rollbackConnectStart, some text)
      | (queued, none) => (queued, none)

def disconnect (client : Client) : Client × Option String :=
  if client.lifecycle = .closed then (client, some "realtime client is closed")
  else if client.lifecycle = .idle ∨ client.running = false then (client, none)
  else client.enqueue .disconnect

/-- Once closed, the transport's client is gone. -/
def close (client : Client) : Client :=
  if client.lifecycle = .closed then client
  else
    let joined := { client with lifecycle := .closed, connected := false, running := false }.join
    { joined with commands := [], transport := .disconnected, activeFeatures := ∅ }

/-- `send_reliable` and `send_unreliable` differ in the channel they name. -/
def send (client : Client) (reliable : Bool) (featureId : FeatureId) (payload : Text) :
    Client × Option String :=
  if client.lifecycle = .closed then (client, some "realtime client is closed")
  else if client.registry.findFeature featureId = none then
    (client, some ("unknown feature id for send: " ++ toString featureId.toNat))
  else client.enqueue (.sendPayload featureId reliable payload)

/-! ## The worker -/

/-- What the transport does at a tick: which tokens it accepts, where it moves, what it hands
over, and how many parts of the tick are done when the worker fails. -/
structure Tick where
  accepts : Text → Bool := fun _ => true
  advance : Transport
  incoming : List Message := []
  failsAfter : Option Nat := none
  failure : String := ""

def processCommand (tick : Tick) (client : Client) : ClientCommand → Client
  | .connect _ connectToken =>
    { client with transport := if tick.accepts connectToken then .connecting else .disconnected }
  | .disconnect => { client with transport := .disconnected }
  | .sendPayload featureId reliable payload =>
    if client.registry.findFeature featureId = none then
      client.report (.error ("cannot send payload for unknown feature id " ++
        toString featureId.toNat))
    else if featureId ∉ client.activeFeatures then client
    else if maxPayloadBytes < payload.length then client.report (.error "payload exceeds max size")
    else client.report (.sent reliable (.payload featureId payload))

def advanceTime (tick : Tick) (client : Client) : Client :=
  { client with transport := Transport.move client.transport tick.advance }

def refuse (client : Client) (text : String) : Client :=
  { client.report (.error text) with transport := .disconnected, activeFeatures := ∅ }

def versionMismatch (verb : String) (featureId : FeatureId) (remote «local» : UInt16) : String :=
  "server " ++ verb ++ " incompatible feature version for id " ++ toString featureId.toNat ++
    ": remote " ++ toString remote.toNat ++ " local " ++ toString «local».toNat

def unknownFeature (verb : String) (featureId : FeatureId) : String :=
  "server " ++ verb ++ " unknown feature id " ++ toString featureId.toNat

/-- Why the client breaks off the connection over a message. -/
def refusal (registry : FeatureRegistry) : Message → Option String
  | .payload _ _ => none
  | .control action featureId featureVersion =>
    if action = ControlAction.offer.code then
      match registry.findFeature featureId with
      | none => some (unknownFeature "offered" featureId)
      | some feature =>
        if feature.version ≠ featureVersion then
          some (versionMismatch "offered" featureId featureVersion feature.version)
        else none
    else if action = ControlAction.activate.code then
      match registry.findFeature featureId with
      | none => some (unknownFeature "activated" featureId)
      | some feature =>
        if feature.version ≠ featureVersion then
          some (versionMismatch "activated" featureId featureVersion feature.version)
        else none
    else if action = ControlAction.deactivate.code then
      match registry.findFeature featureId with
      | none => some (unknownFeature "deactivated" featureId)
      | some _ => none
    else none

def featureName (registry : FeatureRegistry) (featureId : FeatureId) : String :=
  ((registry.findFeature featureId).map FeatureDefinition.name).getD ""

/-- A message that is not refused. -/
def accept (client : Client) : Message → Client
  | .payload featureId payload =>
    if featureId ∈ client.activeFeatures then client.report (.message featureId payload)
    else client
  | .control action featureId featureVersion =>
    if action = ControlAction.offer.code then
      client.report (.featureOffered featureId featureVersion
        (featureName client.registry featureId))
    else if action = ControlAction.activate.code then
      if featureId ∈ client.activeFeatures then client
      else
        { client with activeFeatures := insert featureId client.activeFeatures }.report
          (.featureActivated featureId)
    else if action = ControlAction.deactivate.code then
      if featureId ∈ client.activeFeatures then
        { client with activeFeatures := client.activeFeatures.erase featureId }.report
          (.featureDeactivated featureId)
      else client
    else client

def processMessages (client : Client) : List Message → Client
  | [] => client
  | incoming :: rest =>
    match refusal client.registry incoming with
    | some text => client.refuse text
    | none => (client.accept incoming).processMessages rest

def receiveMessages (tick : Tick) (client : Client) : Client :=
  if client.transport = .connected then client.processMessages tick.incoming else client

def lostConnection (client : Client) (what : Report) : Client :=
  ({ client with connected := false, activeFeatures := ∅ }.setLifecycle .idle).report what

def observeChange (client : Client) : Client :=
  if client.transport = .connected then
    ({ client with connected := true }.setLifecycle .connected).report .connected
  else if client.transport.isDisconnected = true ∧ client.previousState = .connected then
    client.lostConnection .disconnected
  else if client.transport = .disconnected ∧ client.previousState = .connecting then
    client.lostConnection (.error "client disconnected before connection completed")
  else if client.transport = .error then
    client.lostConnection (.error "client connection failed")
  else client

def observe (client : Client) : Client :=
  if client.transport = client.previousState then client
  else { client.observeChange with previousState := client.transport }

def takeCommands (client : Client) : Client := { client with commands := [] }

/-- The parts of one turn of the loop. -/
def parts (tick : Tick) (client : Client) : List (Client → Client) :=
  takeCommands :: client.commands.map (fun command client => client.processCommand tick command) ++
    [advanceTime tick, receiveMessages tick, observe]

def workerFailed (client : Client) (failure : String) : Client :=
  ({ client with connected := false, activeFeatures := ∅, running := false }.setLifecycle
    .idle).report (.error ("realtime client worker failed: " ++ failure))

def turn (tick : Tick) (client : Client) : Client :=
  match tick.failsAfter with
  | none => (client.parts tick).foldl (fun client part => part client) client
  | some count =>
    (((client.parts tick).take count).foldl (fun client part => part client) client).workerFailed
      tick.failure

end Client
end Space2.Realtime
