import Mathlib.Data.List.Chain
import Mathlib.Data.List.Sort
import Space2.Base.Checks

/-!
# Auth tickets

A ticket names the client and the features the server may turn on for it. It
travels in the user data of the connection and is checked again when it is read.
-/
namespace Space2.Realtime
open Space2.Base

/-- The bytes of a `std::string`. -/
abbrev Text := List UInt8

def utf8 (s : String) : Text := s.toUTF8.toList

abbrev FeatureId := UInt16

structure AuthTicket where
  ticketId : Text := []
  subjectUserId : Text := []
  clientId : UInt64 := 0
  serverScope : Text := []
  allowedFeatures : List FeatureId := []
  issuedAt : Int64 := 0
  expiresAt : Int64 := 0
deriving DecidableEq

def authTicketTransportStringMaxBytes : Nat := 255
def authTicketTransportMaxFeatureCount : Nat := 255
def authTicketTransportPayloadMaxBytes : Nat := 254

def AuthTicket.encodedPayloadSize (ticket : AuthTicket) : Nat :=
  1 + 4 + 8 + 8 + 8 + ticket.allowedFeatures.length * 2 + ticket.ticketId.length +
    ticket.subjectUserId.length + ticket.serverScope.length

def isSortedUnique (values : List FeatureId) : Bool :=
  decide (values.IsChain (· < ·))

def validateAuthTicket (ticket : AuthTicket) : Except String Unit := do
  ensure (ticket.ticketId ≠ []) "auth ticket ticket-id must be non-empty"
  ensure (ticket.subjectUserId ≠ []) "auth ticket subject-user-id must be non-empty"
  ensure (ticket.clientId ≠ 0) "auth ticket client-id must be non-zero"
  ensure (ticket.serverScope ≠ []) "auth ticket server-scope must be non-empty"
  ensure (0 < ticket.issuedAt) "auth ticket issued-at must be positive"
  ensure (ticket.issuedAt < ticket.expiresAt)
    "auth ticket expires-at must be greater than issued-at"
  ensure (ticket.ticketId.length ≤ authTicketTransportStringMaxBytes ∧
      ticket.subjectUserId.length ≤ authTicketTransportStringMaxBytes ∧
      ticket.serverScope.length ≤ authTicketTransportStringMaxBytes)
    "auth ticket string fields exceed transport limits"
  ensure (ticket.allowedFeatures.length ≤ authTicketTransportMaxFeatureCount)
    "auth ticket allowed-features exceed transport limits"
  ensure (0 ∉ ticket.allowedFeatures)
    "auth ticket allowed-features must not contain zero"
  ensure (isSortedUnique ticket.allowedFeatures)
    "auth ticket allowed-features must be sorted and unique"
  ensure (ticket.encodedPayloadSize ≤ authTicketTransportPayloadMaxBytes)
    "auth ticket exceeds transport payload limits"

/-- What is left of the payload is the state; reading past its end is an error. -/
abbrev Reader := StateT Text (Except String)

def take (count : Nat) : Reader Text := fun rest =>
  if count ≤ rest.length then .ok (rest.take count, rest.drop count)
  else .error "auth ticket payload truncated"

def littleEndian : Text → Nat
  | [] => 0
  | byte :: rest => byte.toNat + 256 * littleEndian rest

def readU8 : Reader UInt8 := do return UInt8.ofNat (littleEndian (← take 1))
def readU16 : Reader UInt16 := do return UInt16.ofNat (littleEndian (← take 2))
def readU64 : Reader UInt64 := do return UInt64.ofNat (littleEndian (← take 8))

def readAuthTicketString (length : UInt8) : Reader Text := take length.toNat

def readFeatures : Nat → Reader (List FeatureId)
  | 0 => return []
  | count + 1 => do
    let featureId ← readU16
    let rest ← readFeatures count
    return featureId :: rest

def authTicketEncodingVersion : UInt8 := 1

def netcodeUserDataBytes : Nat := 256

abbrev UserData := Vector UInt8 netcodeUserDataBytes

def readAuthTicket : Reader AuthTicket := do
  let version ← readU8
  ensure (version = authTicketEncodingVersion) "unsupported auth ticket encoding version"
  let ticketIdSize ← readU8
  let subjectUserIdSize ← readU8
  let serverScopeSize ← readU8
  let featureCount ← readU8
  let clientId ← readU64
  let issuedAt ← readU64
  let expiresAt ← readU64
  let allowedFeatures ← readFeatures featureCount.toNat
  let ticketId ← readAuthTicketString ticketIdSize
  let subjectUserId ← readAuthTicketString subjectUserIdSize
  let serverScope ← readAuthTicketString serverScopeSize
  return { ticketId, subjectUserId, clientId, serverScope, allowedFeatures,
           issuedAt := issuedAt.toInt64, expiresAt := expiresAt.toInt64 }

def decodeAuthTicket (userData : UserData) : Except String AuthTicket := do
  let payloadSize := littleEndian (userData.toList.take 2)
  ensure (payloadSize ≠ 0) "missing auth ticket payload"
  ensure (payloadSize ≤ netcodeUserDataBytes - 2)
    "auth ticket payload exceeds transport limits"
  let (ticket, rest) ← readAuthTicket ((userData.toList.drop 2).take payloadSize)
  ensure (rest = []) "auth ticket payload has trailing bytes"
  validateAuthTicket ticket
  return ticket

/-- `std::binary_search`, on a list that `validateAuthTicket` found sorted. -/
def featureAllowedByTicket (ticket : AuthTicket) (featureId : FeatureId) : Bool :=
  ticket.allowedFeatures.contains featureId

end Space2.Realtime

/-!
# The feature registry

Server and clients share the features they know by their numbers.
-/
namespace Space2.Realtime
open Space2.Base

structure FeatureDefinition where
  id : FeatureId := 0
  version : UInt16 := 1
  name : String
deriving DecidableEq

abbrev FeatureRegistry := List FeatureDefinition

def FeatureRegistry.findFeature (registry : FeatureRegistry) (id : FeatureId) :
    Option FeatureDefinition :=
  registry.find? (·.id = id)

def FeatureRegistry.registerFeature (registry : FeatureRegistry) (feature : FeatureDefinition) :
    Except String FeatureRegistry := do
  ensure (feature.id ≠ 0) "feature id must be non-zero"
  ensure (feature.name ≠ "") "feature name must be non-empty"
  ensure (registry.findFeature feature.id = none)
    ("feature id already registered: " ++ toString feature.id.toNat)
  return feature :: registry

def FeatureRegistry.listFeatures (registry : FeatureRegistry) : List FeatureDefinition :=
  registry.mergeSort (fun a b => decide (a.id ≤ b.id))

inductive ControlAction
  | offer
  | activate
  | deactivate
deriving DecidableEq

def maxPayloadBytes : Nat := 1024

def ControlAction.code : ControlAction → UInt8
  | .offer => 1
  | .activate => 2
  | .deactivate => 3

inductive Message
  | control (action : UInt8) (featureId : FeatureId) (featureVersion : UInt16)
  | payload (featureId : FeatureId) (payload : Text)
deriving DecidableEq

end Space2.Realtime
