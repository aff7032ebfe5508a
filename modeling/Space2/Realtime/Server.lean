import Mathlib.Data.Finset.Basic
import Space2.Realtime.AuthTicket

/-!
# The realtime server

Callers queue commands by client index from any thread. The worker first lets the
transport report who connected and who left, then takes the queue and executes it,
then hands out the messages that came in. `Session` is the transport's side of a
connection; its serial number, like the one a queued command carries, only says
which connection is meant and is not read by the code.
-/
namespace Space2.Realtime
open Space2.Base

inductive CommandType
  | activateFeature
  | deactivateFeature
  | sendPayload
deriving DecidableEq

structure Command where
  type : CommandType := .sendPayload
  clientIndex : Int := -1
  featureId : FeatureId := 0
  reliable : Bool := true
  payload : Text := []
deriving DecidableEq

structure Session where
  serial : Nat
  clientId : UInt64
  userData : UserData

structure Queued where
  command : Command
  issuedTo : Option Nat
deriving DecidableEq

inductive Phase
  | transport
  | commands
  | messages
deriving DecidableEq

structure Server where
  registry : FeatureRegistry
  maxClients : Nat
  authScope : Text
  running : Bool := true
  phase : Phase := .transport
  sessions : Nat := 0
  slots : Int → Option Session := fun _ => none
  commands : List Queued := []
  pending : List Queued := []
  activeFeatures : Int → Option (Finset FeatureId) := fun _ => none
  clientAuthTickets : Int → Option AuthTicket := fun _ => none

inductive Effect
  | sent (clientIndex : Int) (reliable : Bool) (message : Message)
  | clientConnected (clientIndex : Int) (clientId : UInt64) (authTicket : AuthTicket)
  | clientDisconnected (clientIndex : Int)
  | featureActivated (clientIndex : Int) (featureId : FeatureId)
  | featureDeactivated (clientIndex : Int) (featureId : FeatureId)
  | message (clientIndex : Int) (featureId : FeatureId) (payload : Text)
  | error (text : Text)
deriving DecidableEq

/-- A map with the entry at `key` written or removed. -/
def store {α : Type} (map : Int → Option α) (key : Int) (value : Option α) : Int → Option α :=
  fun other => if other = key then value else map other

@[simp] theorem store_self {α : Type} (map : Int → Option α) (key : Int) (value : Option α) :
    store map key value key = value := if_pos rfl

theorem store_of_ne {α : Type} {map : Int → Option α} {key other : Int} (h : other ≠ key)
    (value : Option α) : store map key value other = map other := if_neg h

namespace Server

def isClientConnected (server : Server) (clientIndex : Int) : Bool :=
  (server.slots clientIndex).isSome

def active (server : Server) (clientIndex : Int) : Finset FeatureId :=
  (server.activeFeatures clientIndex).getD ∅

def setActive (server : Server) (clientIndex : Int) (features : Option (Finset FeatureId)) :
    Server :=
  { server with activeFeatures := store server.activeFeatures clientIndex features }

/-! ## What callers queue -/

def validateClientIndex (server : Server) (clientIndex : Int) (allowBroadcast : Bool) :
    Except String Unit :=
  ensure ((allowBroadcast ∧ clientIndex = -1) ∨
      (0 ≤ clientIndex ∧ clientIndex < server.maxClients))
    ("realtime client-index out of range: " ++ toString clientIndex)

def pushCommand (server : Server) (command : Command) : Server :=
  { server with commands := server.commands ++
      [⟨command, (server.slots command.clientIndex).map Session.serial⟩] }

def ensureRunning (server : Server) : Except String Unit :=
  ensure (server.running = true) "realtime server is not running"

def ensureFeature (server : Server) (purpose : String) (featureId : FeatureId) :
    Except String Unit :=
  ensure (server.registry.findFeature featureId ≠ none)
    ("unknown feature id for " ++ purpose ++ ": " ++ toString featureId.toNat)

def activateFeature (server : Server) (clientIndex : Int) (featureId : FeatureId) :
    Except String Server := do
  server.ensureRunning
  server.validateClientIndex clientIndex false
  server.ensureFeature "activation" featureId
  return server.pushCommand { type := .activateFeature, clientIndex, featureId }

def deactivateFeature (server : Server) (clientIndex : Int) (featureId : FeatureId) :
    Except String Server := do
  server.ensureRunning
  server.validateClientIndex clientIndex false
  server.ensureFeature "deactivation" featureId
  return server.pushCommand { type := .deactivateFeature, clientIndex, featureId }

/-- `send_reliable` and `send_unreliable` differ in the channel they name. -/
def send (server : Server) (reliable : Bool) (clientIndex : Int) (featureId : FeatureId)
    (payload : Text) : Except String Server := do
  server.ensureRunning
  server.validateClientIndex clientIndex true
  server.ensureFeature "send" featureId
  return server.pushCommand { type := .sendPayload, clientIndex, featureId, reliable, payload }

def sendReliable (server : Server) := server.send true
def sendUnreliable (server : Server) := server.send false
def broadcastReliable (server : Server) := server.sendReliable (-1)
def broadcastUnreliable (server : Server) := server.sendUnreliable (-1)

/-! ## What the transport reports -/

def onClientDisconnected (server : Server) (clientIndex : Int) : Server × List Effect :=
  ({ server with activeFeatures := store server.activeFeatures clientIndex none,
                 clientAuthTickets := store server.clientAuthTickets clientIndex none },
    [.clientDisconnected clientIndex])

/-- The transport forgets the connection after it has reported it. -/
def disconnectClient (server : Server) (clientIndex : Int) : Server × List Effect :=
  let (server, effects) := server.onClientDisconnected clientIndex
  ({ server with slots := store server.slots clientIndex none }, effects)

def storeTicket (server : Server) (clientIndex : Int) (authTicket : AuthTicket) : Server :=
  { server with
      clientAuthTickets := store server.clientAuthTickets clientIndex (some authTicket) }

def offers (server : Server) (clientIndex : Int) (authTicket : AuthTicket) : List Effect :=
  (server.registry.listFeatures.filter fun feature =>
      featureAllowedByTicket authTicket feature.id).map fun feature =>
    .sent clientIndex true (.control ControlAction.offer.code feature.id feature.version)

def refuseClient (server : Server) (clientIndex : Int) (text : Text) : Server × List Effect :=
  let (server, effects) := server.disconnectClient clientIndex
  (server, .error text :: effects)

def onClientConnected (server : Server) (clientIndex : Int) (session : Session) :
    Server × List Effect :=
  match decodeAuthTicket session.userData with
  | .error text =>
    server.refuseClient clientIndex (utf8 ("client connected with invalid auth ticket: " ++ text))
  | .ok authTicket =>
    if authTicket.clientId ≠ session.clientId then
      server.refuseClient clientIndex (utf8 ("client auth ticket client-id mismatch: ticket " ++
        toString authTicket.clientId.toNat ++ " transport " ++ toString session.clientId.toNat))
    else if authTicket.serverScope ≠ server.authScope then
      server.refuseClient clientIndex (utf8 "client auth ticket server-scope mismatch: ticket '" ++
        authTicket.serverScope ++ utf8 "' server '" ++ server.authScope ++ utf8 "'")
    else
      (server.storeTicket clientIndex authTicket,
        .clientConnected clientIndex session.clientId authTicket ::
          server.offers clientIndex authTicket)

def seat (server : Server) (clientIndex : Int) (session : Session) : Server :=
  { server with sessions := server.sessions + 1,
                slots := store server.slots clientIndex (some session) }

def connectClient (server : Server) (clientIndex : Int) (clientId : UInt64)
    (userData : UserData) : Server × List Effect :=
  let session : Session := ⟨server.sessions, clientId, userData⟩
  (server.seat clientIndex session).onClientConnected clientIndex session

/-! ## What the worker executes -/

def activateCommand (server : Server) (command : Command) : Server × List Effect :=
  match server.registry.findFeature command.featureId,
      server.clientAuthTickets command.clientIndex with
  | none, _ => (server, [])
  | some _, none =>
    (server, [.error (utf8 "cannot activate feature for client without auth ticket")])
  | some feature, some authTicket =>
    if featureAllowedByTicket authTicket command.featureId = false then
      (server, [.error (utf8 ("client auth ticket does not allow feature id " ++
        toString command.featureId.toNat))])
    else if command.featureId ∈ server.active command.clientIndex then
      (server, [])
    else
      (server.setActive command.clientIndex
          (some (insert command.featureId (server.active command.clientIndex))),
        [.sent command.clientIndex true (.control ControlAction.activate.code command.featureId feature.version),
          .featureActivated command.clientIndex command.featureId])

def deactivateCommand (server : Server) (command : Command) : Server × List Effect :=
  match server.registry.findFeature command.featureId with
  | none =>
    (server, [.error (utf8 ("cannot deactivate unknown feature id " ++
      toString command.featureId.toNat))])
  | some _ =>
    if command.featureId ∈ server.active command.clientIndex then
      let left := (server.active command.clientIndex).erase command.featureId
      (server.setActive command.clientIndex (if left = ∅ then none else some left),
        [.sent command.clientIndex true (.control ControlAction.deactivate.code command.featureId 0),
          .featureDeactivated command.clientIndex command.featureId])
    else
      (server, [])

def sendToClient (server : Server) (command : Command) (index : Int) : List Effect :=
  if server.isClientConnected index ∧ command.featureId ∈ server.active index then
    [.sent index command.reliable (.payload command.featureId command.payload)]
  else
    []

def clientIndices (server : Server) : List Int := (List.range server.maxClients).map Int.ofNat

def sendPayload (server : Server) (command : Command) : List Effect :=
  if server.registry.findFeature command.featureId = none then
    [.error (utf8 ("cannot send payload for unknown feature id " ++
      toString command.featureId.toNat))]
  else if maxPayloadBytes < command.payload.length then
    [.error (utf8 "payload exceeds max size")]
  else if 0 ≤ command.clientIndex then
    server.sendToClient command command.clientIndex
  else
    server.clientIndices.flatMap (server.sendToClient command)

def execute (server : Server) (command : Command) : Server × List Effect :=
  if 0 ≤ command.clientIndex ∧ server.isClientConnected command.clientIndex = false then
    (server, [])
  else
    match command.type with
    | .activateFeature => server.activateCommand command
    | .deactivateFeature => server.deactivateCommand command
    | .sendPayload => (server, server.sendPayload command)

/-- Control messages from a client are dropped, as are payloads of features not active for it. -/
def deliver (server : Server) (clientIndex : Int) (incoming : Message) : List Effect :=
  match incoming with
  | .control _ _ _ => []
  | .payload featureId payload =>
    if featureId ∈ server.active clientIndex then [.message clientIndex featureId payload] else []

/-- The worker has failed: the transport disconnects every client and the pending commands are
lost. -/
def stopWorker (server : Server) : Server × List Effect :=
  ({ server with running := false, pending := [], slots := fun _ => none,
                 activeFeatures := fun index =>
                   if server.isClientConnected index then none else server.activeFeatures index,
                 clientAuthTickets := fun index =>
                   if server.isClientConnected index then none
                   else server.clientAuthTickets index },
    (server.clientIndices.filter fun index => server.isClientConnected index).map
      .clientDisconnected)

end Server
end Space2.Realtime
