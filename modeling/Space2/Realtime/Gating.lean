import Space2.Base.Runs
import Space2.Realtime.Server

/-!
# Feature gating

Whatever the order of calls, connections and worker steps, a client's active features
stay among those of its ticket and payloads pass for active features only. A command
keeps to the client it was queued for as long as nobody joins a slot while a command
for its previous client is waiting.
-/
namespace Space2.Realtime
open Space2.Base

/-- A call from outside, a report of the transport, or a step of the worker. -/
inductive Action
  | registerFeature (feature : FeatureDefinition)
  | activateFeature (clientIndex : Int) (featureId : FeatureId)
  | deactivateFeature (clientIndex : Int) (featureId : FeatureId)
  | send (reliable : Bool) (clientIndex : Int) (featureId : FeatureId) (payload : Text)
  | connect (clientIndex : Int) (clientId : UInt64) (userData : UserData)
  | disconnect (clientIndex : Int)
  | takeCommands
  | executeNext
  | receive (clientIndex : Int) (incoming : Message)
  | endTick
  | fail

/-- A payload of the feature passes between the client and the server. -/
def Effect.Carries (clientIndex : Int) (featureId : FeatureId) : Effect → Prop
  | .sent index _ (.payload feature _) => index = clientIndex ∧ feature = featureId
  | .message index feature _ => index = clientIndex ∧ feature = featureId
  | _ => False

/-- A control message to the client, or a report about it. -/
def Effect.Notifies (clientIndex : Int) : Effect → Prop
  | .sent index _ (.control _ _ _) => index = clientIndex
  | .featureActivated index _ => index = clientIndex
  | .featureDeactivated index _ => index = clientIndex
  | .error _ => True
  | _ => False

theorem Effect.Notifies.not_carries {slot index : Int} {featureId : FeatureId} {effect : Effect}
    (h : effect.Notifies slot) : ¬ effect.Carries index featureId := by
  cases effect with
  | sent other reliable message =>
    cases message with
    | control => exact id
    | payload => exact h.elim
  | message => exact h.elim
  | _ => exact id

theorem Effect.Notifies.sent {slot index : Int} {reliable : Bool} {message : Message}
    (h : (Effect.sent index reliable message).Notifies slot) : index = slot := by
  cases message with
  | control => exact h
  | payload => exact h.elim

namespace Server

/-- A call that throws leaves the server as it was. -/
def called (server : Server) (result : Except String Server) : Server × List Effect :=
  match result with
  | .ok next => (next, [])
  | .error _ => (server, [])

def executeNext (server : Server) : Server × List Effect :=
  match server.pending with
  | [] => ({ server with phase := .messages }, [])
  | queued :: rest => { server with pending := rest }.execute queued.command

/-- The worker goes through its phases in turn; an action that is not due changes nothing. -/
def perform (server : Server) : Action → Server × List Effect
  | .registerFeature feature =>
    server.called ((server.registry.registerFeature feature).map fun registry =>
      { server with registry := registry })
  | .activateFeature clientIndex featureId =>
    server.called (server.activateFeature clientIndex featureId)
  | .deactivateFeature clientIndex featureId =>
    server.called (server.deactivateFeature clientIndex featureId)
  | .send reliable clientIndex featureId payload =>
    server.called (server.send reliable clientIndex featureId payload)
  | .connect clientIndex clientId userData =>
    if server.running = true ∧ server.phase = .transport ∧ clientIndex ∈ server.clientIndices ∧
        server.isClientConnected clientIndex = false then
      server.connectClient clientIndex clientId userData
    else (server, [])
  | .disconnect clientIndex =>
    if server.running = true ∧ server.phase = .transport ∧
        server.isClientConnected clientIndex = true then
      server.disconnectClient clientIndex
    else (server, [])
  | .takeCommands =>
    if server.running = true ∧ server.phase = .transport then
      ({ server with phase := .commands, pending := server.commands, commands := [] }, [])
    else (server, [])
  | .executeNext =>
    if server.running = true ∧ server.phase = .commands then server.executeNext else (server, [])
  | .receive clientIndex incoming =>
    if server.running = true ∧ server.phase = .messages ∧
        server.isClientConnected clientIndex = true then
      (server, server.deliver clientIndex incoming)
    else (server, [])
  | .endTick =>
    if server.running = true ∧ server.phase = .messages then
      ({ server with phase := .transport }, [])
    else (server, [])
  | .fail => if server.running = true then server.stopWorker else (server, [])

def after (server : Server) (action : Action) : Server := (server.perform action).1
def effects (server : Server) (action : Action) : List Effect := (server.perform action).2

/-- A server that has just started. -/
def started (registry : FeatureRegistry) (maxClients : Nat) (authScope : Text) : Server :=
  { registry, maxClients, authScope }

/-- The ticket of the client connected at a slot. -/
def ticketAt (server : Server) (clientIndex : Int) : Option AuthTicket :=
  (server.slots clientIndex).bind fun session => (decodeAuthTicket session.userData).toOption

/-- The features allowed by the ticket of the client connected at a slot. -/
def allowed (server : Server) (clientIndex : Int) : Finset FeatureId :=
  ((server.ticketAt clientIndex).map fun ticket => ticket.allowedFeatures.toFinset).getD ∅

def occupant (server : Server) (clientIndex : Int) : Option Nat :=
  (server.slots clientIndex).map Session.serial

/-- The action changes what is active for the client at the slot or sends it something. -/
def Touches (server : Server) (action : Action) (clientIndex : Int) : Prop :=
  (server.after action).activeFeatures clientIndex ≠ server.activeFeatures clientIndex ∨
    ∃ reliable message, Effect.sent clientIndex reliable message ∈ server.effects action

/-! ## One action -/

structure Sound (server : Server) : Prop where
  inside : ∀ index, server.slots index ≠ none → 0 ≤ index
  vacant : ∀ index, server.slots index = none →
    server.activeFeatures index = none ∧ server.clientAuthTickets index = none
  ticket : ∀ index authTicket, server.clientAuthTickets index = some authTicket →
    server.ticketAt index = some authTicket
  allowed : ∀ index, server.active index ⊆ server.allowed index

theorem started_sound (registry : FeatureRegistry) (maxClients : Nat) (authScope : Text) :
    (started registry maxClients authScope).Sound where
  inside := by
    intro index h
    exact absurd rfl h
  vacant := fun _ _ => ⟨rfl, rfl⟩
  ticket := by
    intro index authTicket h
    exact absurd h (by simp [started])
  allowed := fun _ => Finset.empty_subset _

variable {server : Server}

theorem active_setActive_self (index : Int) (features : Option (Finset FeatureId)) :
    (server.setActive index features).active index = features.getD ∅ := by
  simp only [active, setActive, store_self]

theorem active_setActive_of_ne {index other : Int} (h : other ≠ index)
    (features : Option (Finset FeatureId)) :
    (server.setActive index features).active other = server.active other := by
  simp only [active, setActive, store_of_ne h]

theorem Sound.connected_of_active (h : server.Sound) {index : Int} {featureId : FeatureId}
    (hactive : featureId ∈ server.active index) : server.slots index ≠ none := by
  intro hvacant
  simp [active, (h.vacant index hvacant).1] at hactive

theorem Sound.setActive (h : server.Sound) {index : Int} {features : Option (Finset FeatureId)}
    (hslot : server.slots index ≠ none) (hallowed : features.getD ∅ ⊆ server.allowed index) :
    (server.setActive index features).Sound where
  inside := h.inside
  vacant := by
    intro other hvacant
    have hne : other ≠ index := by
      rintro rfl
      exact hslot hvacant
    refine ⟨?_, (h.vacant other hvacant).2⟩
    simp only [Server.setActive, store_of_ne hne]
    exact (h.vacant other hvacant).1
  ticket := h.ticket
  allowed := by
    intro other
    change _ ⊆ server.allowed other
    by_cases heq : other = index
    · subst heq
      rwa [active_setActive_self]
    · rw [active_setActive_of_ne heq]
      exact h.allowed other

theorem Sound.disconnectClient (h : server.Sound) (index : Int) :
    (server.disconnectClient index).1.Sound where
  inside := by
    intro other hother
    by_cases heq : other = index
    · subst heq
      simp [Server.disconnectClient, onClientDisconnected] at hother
    · simp only [Server.disconnectClient, onClientDisconnected, store_of_ne heq] at hother
      exact h.inside other hother
  vacant := by
    intro other hother
    by_cases heq : other = index
    · subst heq
      simp [Server.disconnectClient, onClientDisconnected]
    · simp only [Server.disconnectClient, onClientDisconnected, store_of_ne heq] at hother ⊢
      exact h.vacant other hother
  ticket := by
    intro other authTicket hother
    by_cases heq : other = index
    · subst heq
      simp [Server.disconnectClient, onClientDisconnected] at hother
    · simp only [Server.disconnectClient, onClientDisconnected, ticketAt, store_of_ne heq] at hother ⊢
      exact h.ticket other authTicket hother
  allowed := by
    intro other
    by_cases heq : other = index
    · subst heq
      simp [Server.disconnectClient, onClientDisconnected, active]
    · simpa only [Server.disconnectClient, onClientDisconnected, active, Server.allowed, ticketAt,
        store_of_ne heq] using h.allowed other

theorem Sound.seat (h : server.Sound) {index : Int} (hindex : 0 ≤ index)
    (hslot : server.slots index = none) (session : Session) : (server.seat index session).Sound where
  inside := by
    intro other hother
    by_cases heq : other = index
    · exact heq ▸ hindex
    · simp only [Server.seat, store_of_ne heq] at hother
      exact h.inside other hother
  vacant := by
    intro other hother
    have heq : other ≠ index := by
      rintro rfl
      simp [Server.seat] at hother
    simp only [Server.seat, store_of_ne heq] at hother
    exact h.vacant other hother
  ticket := by
    intro other authTicket hother
    change server.clientAuthTickets other = some authTicket at hother
    have heq : other ≠ index := by
      rintro rfl
      simp [(h.vacant other hslot).2] at hother
    simp only [Server.seat, ticketAt, store_of_ne heq]
    exact h.ticket other authTicket hother
  allowed := by
    intro other
    by_cases heq : other = index
    · subst heq
      simp [Server.seat, active, (h.vacant other hslot).1]
    · simpa only [Server.seat, active, Server.allowed, ticketAt, store_of_ne heq]
        using h.allowed other

theorem Sound.storeTicket (h : server.Sound) {index : Int} {authTicket : AuthTicket}
    (hticket : server.ticketAt index = some authTicket) :
    (server.storeTicket index authTicket).Sound where
  inside := h.inside
  vacant := by
    intro other hvacant
    change server.slots other = none at hvacant
    have heq : other ≠ index := by
      rintro rfl
      simp [ticketAt, hvacant] at hticket
    simp only [Server.storeTicket, store_of_ne heq]
    exact h.vacant other hvacant
  ticket := by
    intro other found hother
    change server.ticketAt other = some found
    by_cases heq : other = index
    · subst heq
      simp only [Server.storeTicket, store_self] at hother
      exact hother ▸ hticket
    · simp only [Server.storeTicket, store_of_ne heq] at hother
      exact h.ticket other found hother
  allowed := h.allowed

/-- A client is either turned away, and its slot is free again, or seated with its ticket. -/
theorem onClientConnected_cases (server : Server) (index : Int) (session : Session) :
    (∃ text, server.onClientConnected index session = server.refuseClient index text) ∨
    ∃ authTicket, decodeAuthTicket session.userData = .ok authTicket ∧
      authTicket.clientId = session.clientId ∧ authTicket.serverScope = server.authScope ∧
      server.onClientConnected index session = (server.storeTicket index authTicket,
        .clientConnected index session.clientId authTicket :: server.offers index authTicket) := by
  unfold onClientConnected
  cases hdecode : decodeAuthTicket session.userData with
  | error text => exact .inl ⟨_, rfl⟩
  | ok authTicket =>
    dsimp only
    by_cases hclient : authTicket.clientId ≠ session.clientId
    · exact .inl ⟨_, if_pos hclient⟩
    · rw [if_neg hclient]
      by_cases hscope : authTicket.serverScope ≠ server.authScope
      · exact .inl ⟨_, if_pos hscope⟩
      · rw [if_neg hscope]
        exact .inr ⟨authTicket, rfl, not_not.1 hclient, not_not.1 hscope, rfl⟩

theorem ticketAt_seat (server : Server) (index : Int) (session : Session) :
    (server.seat index session).ticketAt index = (decodeAuthTicket session.userData).toOption := by
  simp only [ticketAt, Server.seat, store_self, Option.bind_some]

theorem Sound.connectClient (h : server.Sound) {index : Int} (hindex : 0 ≤ index)
    (hslot : server.slots index = none) (clientId : UInt64) (userData : UserData) :
    (server.connectClient index clientId userData).1.Sound := by
  have hseat := h.seat hindex hslot ⟨server.sessions, clientId, userData⟩
  unfold Server.connectClient
  rcases onClientConnected_cases (server.seat index ⟨server.sessions, clientId, userData⟩) index
    ⟨server.sessions, clientId, userData⟩ with ⟨text, hrefused⟩ | ⟨authTicket, hdecode, -, -, hseated⟩
  · rw [hrefused]
    exact hseat.disconnectClient index
  · rw [hseated]
    refine hseat.storeTicket ?_
    rw [ticketAt_seat, hdecode]
    rfl

theorem Sound.stopWorker (h : server.Sound) : server.stopWorker.1.Sound where
  inside := by
    intro index hindex
    exact absurd rfl hindex
  vacant := by
    intro index _
    by_cases hslot : server.slots index = none
    · simpa [Server.stopWorker, isClientConnected, hslot] using h.vacant index hslot
    · simp [Server.stopWorker, isClientConnected, Option.isSome_iff_ne_none.2 hslot]
  ticket := by
    intro index authTicket hticket
    by_cases hslot : server.slots index = none
    · simp [Server.stopWorker, isClientConnected, hslot, (h.vacant index hslot).2] at hticket
    · simp [Server.stopWorker, isClientConnected, Option.isSome_iff_ne_none.2 hslot] at hticket
  allowed := by
    intro index
    have hnone : server.stopWorker.1.active index = ∅ := by
      by_cases hslot : server.slots index = none
      · simp [active, Server.stopWorker, isClientConnected, hslot, (h.vacant index hslot).1]
      · simp [active, Server.stopWorker, isClientConnected, Option.isSome_iff_ne_none.2 hslot]
    rw [hnone]
    exact Finset.empty_subset _

theorem Sound.activateCommand (h : server.Sound) (command : Command) :
    (server.activateCommand command).1.Sound := by
  unfold Server.activateCommand
  split
  · exact h
  · exact h
  · next feature authTicket _ hticket =>
    by_cases hallowed : featureAllowedByTicket authTicket command.featureId = false
    · rw [if_pos hallowed]
      exact h
    · rw [if_neg hallowed]
      by_cases hactive : command.featureId ∈ server.active command.clientIndex
      · rw [if_pos hactive]
        exact h
      · rw [if_neg hactive]
        have hfound := h.ticket _ _ hticket
        have hslot : server.slots command.clientIndex ≠ none := by
          intro hvacant
          simp [ticketAt, hvacant] at hfound
        refine h.setActive hslot (Finset.insert_subset ?_ (h.allowed _))
        simpa [Server.allowed, hfound, featureAllowedByTicket] using hallowed

theorem Sound.deactivateCommand (h : server.Sound) (command : Command) :
    (server.deactivateCommand command).1.Sound := by
  unfold Server.deactivateCommand
  split
  · exact h
  · by_cases hactive : command.featureId ∈ server.active command.clientIndex
    · rw [if_pos hactive]
      refine h.setActive (h.connected_of_active hactive) ?_
      have hleft := (Finset.erase_subset command.featureId
        (server.active command.clientIndex)).trans (h.allowed command.clientIndex)
      by_cases hempty : (server.active command.clientIndex).erase command.featureId = ∅
      · simp only [hempty, if_true, Option.getD_none, Finset.empty_subset]
      · simpa only [hempty, if_false, Option.getD_some] using hleft
    · rw [if_neg hactive]
      exact h

theorem Sound.execute (h : server.Sound) (command : Command) :
    (server.execute command).1.Sound := by
  unfold Server.execute
  split_ifs
  · exact h
  · cases command.type with
    | activateFeature => exact h.activateCommand command
    | deactivateFeature => exact h.deactivateCommand command
    | sendPayload => exact h

/-- A call throws, or queues one command. -/
def Calls (server : Server) (result : Except String Server) : Prop :=
  ∀ next, result = .ok next → ∃ command, next = server.pushCommand command

theorem activateFeature_calls (index : Int) (featureId : FeatureId) :
    server.Calls (server.activateFeature index featureId) := by
  intro next h
  simp only [Server.activateFeature, bind_eq_ok, pure_eq_ok] at h
  obtain ⟨-, -, -, -, -, -, rfl⟩ := h
  exact ⟨_, rfl⟩

theorem deactivateFeature_calls (index : Int) (featureId : FeatureId) :
    server.Calls (server.deactivateFeature index featureId) := by
  intro next h
  simp only [Server.deactivateFeature, bind_eq_ok, pure_eq_ok] at h
  obtain ⟨-, -, -, -, -, -, rfl⟩ := h
  exact ⟨_, rfl⟩

theorem send_calls (reliable : Bool) (index : Int) (featureId : FeatureId) (payload : Text) :
    server.Calls (server.send reliable index featureId payload) := by
  intro next h
  simp only [Server.send, bind_eq_ok, pure_eq_ok] at h
  obtain ⟨-, -, -, -, -, -, rfl⟩ := h
  exact ⟨_, rfl⟩

theorem Calls.cases {result : Except String Server} (h : server.Calls result) :
    server.called result = (server, []) ∨
      ∃ command, server.called result = (server.pushCommand command, []) := by
  cases hresult : result with
  | error text => exact .inl rfl
  | ok next =>
    obtain ⟨command, rfl⟩ := h next hresult
    exact .inr ⟨command, rfl⟩

/-! ## What an action can do -/

/-- Every way an action can change the server, with the circumstances it needs. -/
inductive Becomes (server : Server) : Action → Server × List Effect → Prop
  | unchanged (action : Action) : Becomes server action (server, [])
  | registered (feature : FeatureDefinition) (registry : FeatureRegistry) :
    Becomes server (.registerFeature feature) ({ server with registry := registry }, [])
  | queued (action : Action) (command : Command) :
    Becomes server action (server.pushCommand command, [])
  | connected {index : Int} (clientId : UInt64) (userData : UserData) (hindex : 0 ≤ index)
    (hslot : server.slots index = none) :
    Becomes server (.connect index clientId userData)
      (server.connectClient index clientId userData)
  | disconnected (index : Int) :
    Becomes server (.disconnect index) (server.disconnectClient index)
  | taken :
    Becomes server .takeCommands
      ({ server with phase := .commands, pending := server.commands, commands := [] }, [])
  | drained : Becomes server .executeNext ({ server with phase := .messages }, [])
  | executed {queued : Queued} {rest : List Queued} (h : server.pending = queued :: rest) :
    Becomes server .executeNext ({ server with pending := rest }.execute queued.command)
  | received (index : Int) (incoming : Message) :
    Becomes server (.receive index incoming) (server, server.deliver index incoming)
  | ended : Becomes server .endTick ({ server with phase := .transport }, [])
  | failed : Becomes server .fail server.stopWorker

theorem Calls.becomes {result : Except String Server} (h : server.Calls result)
    (action : Action) : server.Becomes action (server.called result) := by
  rcases h.cases with hcalled | ⟨command, hcalled⟩
  · exact hcalled ▸ .unchanged action
  · exact hcalled ▸ .queued action command

theorem executeNext_becomes (server : Server) :
    server.Becomes .executeNext server.executeNext := by
  unfold executeNext
  split
  · exact .drained
  · next queued rest hpending => exact .executed hpending

theorem Becomes.guarded {action : Action} {c : Prop} [Decidable c]
    {result : Server × List Effect} (h : c → server.Becomes action result) :
    server.Becomes action (if c then result else (server, [])) := by
  by_cases hc : c
  · exact if_pos hc ▸ h hc
  · exact if_neg hc ▸ .unchanged action

theorem perform_becomes (server : Server) (action : Action) :
    server.Becomes action (server.perform action) := by
  cases action with
  | registerFeature feature =>
    simp only [perform]
    cases server.registry.registerFeature feature with
    | error text => exact .unchanged _
    | ok registry => exact .registered feature registry
  | activateFeature index featureId => exact (activateFeature_calls index featureId).becomes _
  | deactivateFeature index featureId => exact (deactivateFeature_calls index featureId).becomes _
  | send reliable index featureId payload =>
    exact (send_calls reliable index featureId payload).becomes _
  | connect index clientId userData =>
    refine .guarded ?_
    rintro ⟨-, -, hindex, hslot⟩
    refine .connected clientId userData ?_ (by simpa [isClientConnected] using hslot)
    obtain ⟨n, -, rfl⟩ := List.mem_map.1 hindex
    exact Int.natCast_nonneg n
  | disconnect index => exact .guarded fun _ => .disconnected index
  | takeCommands => exact .guarded fun _ => .taken
  | executeNext => exact .guarded fun _ => server.executeNext_becomes
  | receive index incoming => exact .guarded fun _ => .received index incoming
  | endTick => exact .guarded fun _ => .ended
  | fail => exact .guarded fun _ => .failed

theorem Sound.becomes (h : server.Sound) {action : Action} {result : Server × List Effect}
    (hstep : server.Becomes action result) : result.1.Sound := by
  cases hstep with
  | unchanged => exact h
  | registered feature registry => exact ⟨h.inside, h.vacant, h.ticket, h.allowed⟩
  | queued action command => exact ⟨h.inside, h.vacant, h.ticket, h.allowed⟩
  | connected clientId userData hindex hslot => exact h.connectClient hindex hslot clientId userData
  | disconnected index => exact h.disconnectClient index
  | taken => exact ⟨h.inside, h.vacant, h.ticket, h.allowed⟩
  | drained => exact ⟨h.inside, h.vacant, h.ticket, h.allowed⟩
  | @executed queued rest hpending =>
    have hrest : { server with pending := rest }.Sound :=
      ⟨h.inside, h.vacant, h.ticket, h.allowed⟩
    exact hrest.execute queued.command
  | received index incoming => exact h
  | ended => exact ⟨h.inside, h.vacant, h.ticket, h.allowed⟩
  | failed => exact h.stopWorker

theorem Sound.after (h : server.Sound) (action : Action) : (server.after action).Sound :=
  h.becomes (server.perform_becomes action)

/-! ## What passes between the server and its clients -/

/-- Payloads pass for active features only. -/
def Gates (server : Server) (action : Action) : Prop :=
  ∀ effect ∈ server.effects action, ∀ index featureId, effect.Carries index featureId →
    featureId ∈ server.active index

theorem sendToClient_carries {command : Command} {slot : Int} {effect : Effect}
    (h : effect ∈ server.sendToClient command slot) {index : Int} {featureId : FeatureId}
    (hcarries : effect.Carries index featureId) : featureId ∈ server.active index := by
  unfold sendToClient at h
  split_ifs at h with hactive
  · obtain rfl := List.mem_singleton.1 h
    obtain ⟨rfl, rfl⟩ := hcarries
    exact hactive.2
  · exact absurd h List.not_mem_nil

theorem sendPayload_carries {command : Command} {effect : Effect}
    (h : effect ∈ server.sendPayload command) {index : Int} {featureId : FeatureId}
    (hcarries : effect.Carries index featureId) : featureId ∈ server.active index := by
  unfold sendPayload at h
  split_ifs at h
  · obtain rfl := List.mem_singleton.1 h
    exact hcarries.elim
  · obtain rfl := List.mem_singleton.1 h
    exact hcarries.elim
  · exact sendToClient_carries h hcarries
  · obtain ⟨slot, -, hslot⟩ := List.mem_flatMap.1 h
    exact sendToClient_carries hslot hcarries

theorem activateCommand_notifies (command : Command) :
    ∀ effect ∈ (server.activateCommand command).2, effect.Notifies command.clientIndex := by
  unfold activateCommand
  split
  · simp [Effect.Notifies]
  · simp [Effect.Notifies]
  · split_ifs
    · simp [Effect.Notifies]
    · simp [Effect.Notifies]
    · simp [Effect.Notifies]

theorem deactivateCommand_notifies (command : Command) :
    ∀ effect ∈ (server.deactivateCommand command).2, effect.Notifies command.clientIndex := by
  unfold deactivateCommand
  split
  · simp [Effect.Notifies]
  · split_ifs
    · simp [Effect.Notifies]
    · simp [Effect.Notifies]

theorem execute_cases (server : Server) (command : Command) :
    server.execute command = (server, []) ∨
    (¬(0 ≤ command.clientIndex ∧ server.isClientConnected command.clientIndex = false) ∧
      (server.execute command = server.activateCommand command ∨
        server.execute command = server.deactivateCommand command ∨
        server.execute command = (server, server.sendPayload command))) := by
  unfold execute
  split_ifs with h
  · exact .inl rfl
  · refine .inr ⟨h, ?_⟩
    cases command.type with
    | activateFeature => exact .inl rfl
    | deactivateFeature => exact .inr (.inl rfl)
    | sendPayload => exact .inr (.inr rfl)

theorem execute_carries {command : Command} {effect : Effect}
    (h : effect ∈ (server.execute command).2) {index : Int} {featureId : FeatureId}
    (hcarries : effect.Carries index featureId) : featureId ∈ server.active index := by
  rcases server.execute_cases command with hnone | ⟨-, hactivate | hdeactivate | hsend⟩
  · rw [hnone] at h
    exact absurd h List.not_mem_nil
  · rw [hactivate] at h
    exact absurd hcarries (activateCommand_notifies command effect h).not_carries
  · rw [hdeactivate] at h
    exact absurd hcarries (deactivateCommand_notifies command effect h).not_carries
  · rw [hsend] at h
    exact sendPayload_carries h hcarries

theorem deliver_carries {slot : Int} {incoming : Message} {effect : Effect}
    (h : effect ∈ server.deliver slot incoming) {index : Int} {featureId : FeatureId}
    (hcarries : effect.Carries index featureId) : featureId ∈ server.active index := by
  unfold deliver at h
  split at h
  · exact absurd h List.not_mem_nil
  · split_ifs at h with hactive
    · obtain rfl := List.mem_singleton.1 h
      obtain ⟨rfl, rfl⟩ := hcarries
      exact hactive
    · exact absurd h List.not_mem_nil

theorem connectClient_carries {slot : Int} {clientId : UInt64} {userData : UserData}
    {effect : Effect} (h : effect ∈ (server.connectClient slot clientId userData).2) {index : Int}
    {featureId : FeatureId} : ¬ effect.Carries index featureId := by
  unfold connectClient at h
  rcases onClientConnected_cases (server.seat slot ⟨server.sessions, clientId, userData⟩) slot
    ⟨server.sessions, clientId, userData⟩ with ⟨text, hrefused⟩ | ⟨authTicket, -, -, -, hseated⟩
  · rw [hrefused] at h
    rcases List.mem_pair.1 h with rfl | rfl <;> exact id
  · rw [hseated] at h
    rcases List.mem_cons.1 h with rfl | h
    · exact id
    · obtain ⟨feature, -, rfl⟩ := List.mem_map.1 h
      exact id

theorem gates (server : Server) (action : Action) : server.Gates action := by
  intro effect heffect index featureId hcarries
  have hstep := server.perform_becomes action
  unfold effects at heffect
  generalize server.perform action = result at hstep heffect
  cases hstep with
  | connected clientId userData => exact absurd hcarries (connectClient_carries heffect)
  | disconnected slot =>
    obtain rfl := List.mem_singleton.1 heffect
    exact hcarries.elim
  | executed => exact execute_carries heffect hcarries
  | received slot incoming => exact deliver_carries heffect hcarries
  | failed =>
    obtain ⟨slot, -, rfl⟩ := List.mem_map.1 heffect
    exact hcarries.elim
  | _ => exact absurd heffect List.not_mem_nil

/-! ## Commands and slots that change hands -/

def admits (server : Server) (clientId : UInt64) (userData : UserData) : Bool :=
  match decodeAuthTicket userData with
  | .ok authTicket => authTicket.clientId = clientId ∧ authTicket.serverScope = server.authScope
  | .error _ => false

/-- A command queued for a client of the slot has not been executed yet. -/
def waitingAt (server : Server) (clientIndex : Int) : Bool :=
  (server.commands ++ server.pending).any fun queued =>
    queued.command.clientIndex = clientIndex ∧ queued.issuedTo.isSome

/-- No client is let into a slot for whose previous client a command is waiting. -/
def JoinsQuietly (server : Server) : Action → Prop
  | .connect clientIndex clientId userData =>
    server.isClientConnected clientIndex = false → server.admits clientId userData = true →
      server.waitingAt clientIndex = false
  | _ => True

instance (server : Server) : DecidablePred server.JoinsQuietly
  | .connect clientIndex clientId userData =>
    inferInstanceAs (Decidable (server.isClientConnected clientIndex = false →
      server.admits clientId userData = true → server.waitingAt clientIndex = false))
  | .registerFeature _ | .activateFeature _ _ | .deactivateFeature _ _ | .send _ _ _ _
  | .disconnect _ | .takeCommands | .executeNext | .receive _ _ | .endTick | .fail =>
    inferInstanceAs (Decidable True)

/-- An executed command touches no client but the one that held its slot when it was queued. -/
def KeepsToItsClient (server : Server) (action : Action) : Prop :=
  action = .executeNext → ∀ queued rest, server.pending = queued :: rest →
    ∀ serial, queued.issuedTo = some serial →
      ∀ index, server.Touches action index → server.occupant index = some serial

/-- Whoever holds the slot a command waits for held it when the command was queued. -/
structure Addressed (server : Server) (queued : Queued) : Prop where
  index : queued.issuedTo ≠ none → 0 ≤ queued.command.clientIndex
  occupant : ∀ serial, queued.issuedTo = some serial →
    ∀ current, server.occupant queued.command.clientIndex = some current → current = serial

def Orderly (server : Server) : Prop :=
  ∀ queued ∈ server.commands ++ server.pending, server.Addressed queued

theorem Orderly.vacated (h : server.Orderly) {next : Server}
    (hwaiting : next.commands ++ next.pending ⊆ server.commands ++ server.pending)
    (hslots : ∀ index, next.slots index = server.slots index ∨ next.slots index = none) :
    next.Orderly := by
  intro queued hqueued
  have haddressed := h queued (hwaiting hqueued)
  refine ⟨haddressed.index, ?_⟩
  intro serial hserial current hcurrent
  rcases hslots queued.command.clientIndex with hsame | hnone
  · rw [Server.occupant, hsame] at hcurrent
    exact haddressed.occupant serial hserial current hcurrent
  · simp [Server.occupant, hnone] at hcurrent

theorem issuedTo_of_waitingAt {queued : Queued} (h : server.waitingAt queued.command.clientIndex = false)
    (hqueued : queued ∈ server.commands ++ server.pending) : queued.issuedTo = none := by
  have hnot := List.any_eq_false.1 h queued hqueued
  simpa using hnot

theorem activateCommand_slots (command : Command) :
    (server.activateCommand command).1.slots = server.slots ∧
    (server.activateCommand command).1.commands = server.commands ∧
    (server.activateCommand command).1.pending = server.pending := by
  unfold activateCommand
  split
  · exact ⟨rfl, rfl, rfl⟩
  · exact ⟨rfl, rfl, rfl⟩
  · split_ifs <;> exact ⟨rfl, rfl, rfl⟩

theorem deactivateCommand_slots (command : Command) :
    (server.deactivateCommand command).1.slots = server.slots ∧
    (server.deactivateCommand command).1.commands = server.commands ∧
    (server.deactivateCommand command).1.pending = server.pending := by
  unfold deactivateCommand
  split
  · exact ⟨rfl, rfl, rfl⟩
  · split_ifs <;> exact ⟨rfl, rfl, rfl⟩

/-- Executing a command changes neither the connections nor the queue. -/
theorem execute_slots (command : Command) :
    (server.execute command).1.slots = server.slots ∧
    (server.execute command).1.commands = server.commands ∧
    (server.execute command).1.pending = server.pending := by
  rcases server.execute_cases command with hnone | ⟨-, hactivate | hdeactivate | hsend⟩
  · rw [hnone]
    exact ⟨rfl, rfl, rfl⟩
  · rw [hactivate]
    exact activateCommand_slots command
  · rw [hdeactivate]
    exact deactivateCommand_slots command
  · rw [hsend]
    exact ⟨rfl, rfl, rfl⟩

theorem Orderly.pushCommand (h : server.Orderly) (hsound : server.Sound) (command : Command) :
    (server.pushCommand command).Orderly := by
  intro queued hqueued
  simp only [Server.pushCommand, List.mem_append, List.mem_singleton] at hqueued
  rcases hqueued with (hqueued | rfl) | hqueued
  · exact ⟨(h queued (List.mem_append_left _ hqueued)).index,
      (h queued (List.mem_append_left _ hqueued)).occupant⟩
  · refine ⟨fun hissued => hsound.inside _ (by simpa using hissued), ?_⟩
    intro serial hserial current hcurrent
    exact Option.some.inj (hcurrent.symm.trans hserial)
  · exact ⟨(h queued (List.mem_append_right _ hqueued)).index,
      (h queued (List.mem_append_right _ hqueued)).occupant⟩

theorem connectClient_refused_slots {index : Int} {clientId : UInt64} {userData : UserData}
    (h : server.admits clientId userData = false) (hslot : server.slots index = none) :
    (server.connectClient index clientId userData).1.slots = server.slots := by
  unfold connectClient
  rcases onClientConnected_cases (server.seat index ⟨server.sessions, clientId, userData⟩) index
    ⟨server.sessions, clientId, userData⟩ with
    ⟨text, hrefused⟩ | ⟨authTicket, hdecode, hclient, hscope, -⟩
  · rw [hrefused]
    funext other
    by_cases heq : other = index
    · subst heq
      simp [refuseClient, disconnectClient, onClientDisconnected, hslot]
    · simp only [refuseClient, disconnectClient, onClientDisconnected, seat, store_of_ne heq]
  · dsimp only at hdecode hclient
    change authTicket.serverScope = server.authScope at hscope
    simp [admits, hdecode, hclient, hscope] at h

theorem connectClient_slots (index : Int) (clientId : UInt64) (userData : UserData) :
    (∀ other, other ≠ index →
      (server.connectClient index clientId userData).1.slots other = server.slots other) ∧
    (server.connectClient index clientId userData).1.commands = server.commands ∧
    (server.connectClient index clientId userData).1.pending = server.pending := by
  unfold connectClient
  rcases onClientConnected_cases (server.seat index ⟨server.sessions, clientId, userData⟩) index
    ⟨server.sessions, clientId, userData⟩ with ⟨text, hrefused⟩ | ⟨authTicket, -, -, -, hseated⟩
  · rw [hrefused]
    refine ⟨fun other heq => ?_, rfl, rfl⟩
    simp only [refuseClient, disconnectClient, onClientDisconnected, seat, store_of_ne heq]
  · rw [hseated]
    refine ⟨fun other heq => ?_, rfl, rfl⟩
    simp only [Server.storeTicket, seat, store_of_ne heq]

theorem Orderly.connectClient (h : server.Orderly) {index : Int} {clientId : UInt64}
    {userData : UserData} (hslot : server.slots index = none)
    (hquiet : server.JoinsQuietly (.connect index clientId userData)) :
    (server.connectClient index clientId userData).1.Orderly := by
  obtain ⟨hothers, hcommands, hpending⟩ := server.connectClient_slots index clientId userData
  have hwaiting : (server.connectClient index clientId userData).1.commands ++
      (server.connectClient index clientId userData).1.pending ⊆
        server.commands ++ server.pending := by
    rw [hcommands, hpending]
    exact fun _ => id
  cases hadmits : server.admits clientId userData with
  | false =>
    exact h.vacated hwaiting fun other =>
      .inl (congrFun (connectClient_refused_slots hadmits hslot) other)
  | true =>
    have hfree : server.isClientConnected index = false := by simp [isClientConnected, hslot]
    intro queued hqueued
    have haddressed := h queued (hwaiting hqueued)
    refine ⟨haddressed.index, ?_⟩
    intro serial hserial current hcurrent
    by_cases heq : queued.command.clientIndex = index
    · have hnone := issuedTo_of_waitingAt (heq ▸ hquiet hfree hadmits) (hwaiting hqueued)
      simp [hnone] at hserial
    · rw [Server.occupant, hothers _ heq] at hcurrent
      exact haddressed.occupant serial hserial current hcurrent

theorem Orderly.after (h : server.Orderly) (hsound : server.Sound) {action : Action}
    (hquiet : server.JoinsQuietly action) : (server.after action).Orderly := by
  have hstep := server.perform_becomes action
  unfold Server.after
  generalize server.perform action = result at hstep
  cases hstep with
  | queued action command => exact h.pushCommand hsound command
  | connected clientId userData hindex hslot => exact h.connectClient hslot hquiet
  | disconnected index =>
    refine h.vacated (fun _ => id) fun other => ?_
    by_cases heq : other = index
    · subst heq
      simp [disconnectClient, onClientDisconnected]
    · left
      simp only [disconnectClient, onClientDisconnected, store_of_ne heq]
  | taken =>
    refine h.vacated (fun queued hqueued => ?_) fun other => .inl rfl
    simpa using List.mem_append_left _ hqueued
  | @executed queued rest hpending =>
    obtain ⟨hslots, hcommands, hrest⟩ :=
      @execute_slots { server with pending := rest } queued.command
    refine h.vacated ?_ fun other => .inl (congrFun hslots other)
    rw [hcommands, hrest, hpending]
    intro other hother
    rcases List.mem_append.1 hother with hother | hother
    · exact List.mem_append_left _ hother
    · exact List.mem_append_right _ (List.mem_cons_of_mem _ hother)
  | failed =>
    refine h.vacated (fun queued hqueued => List.mem_append_left _ ?_) fun other => .inr rfl
    simpa [stopWorker] using hqueued
  | _ => exact h.vacated (fun _ => id) fun other => .inl rfl

theorem activateCommand_others {command : Command} {index : Int}
    (h : index ≠ command.clientIndex) :
    (server.activateCommand command).1.activeFeatures index = server.activeFeatures index := by
  unfold activateCommand
  split
  · rfl
  · rfl
  · split_ifs
    · rfl
    · rfl
    · exact store_of_ne h _

theorem deactivateCommand_others {command : Command} {index : Int}
    (h : index ≠ command.clientIndex) :
    (server.deactivateCommand command).1.activeFeatures index = server.activeFeatures index := by
  unfold deactivateCommand
  split
  · rfl
  · split_ifs
    · exact store_of_ne h _
    · rfl

theorem sendPayload_sent {command : Command} (h : 0 ≤ command.clientIndex) {index : Int}
    {reliable : Bool} {message : Message}
    (hsent : Effect.sent index reliable message ∈ server.sendPayload command) :
    index = command.clientIndex := by
  unfold sendPayload at hsent
  rw [if_pos h] at hsent
  split_ifs at hsent
  · simp at hsent
  · simp at hsent
  · unfold sendToClient at hsent
    split_ifs at hsent
    · exact (Effect.sent.inj (List.mem_singleton.1 hsent)).1
    · exact absurd hsent List.not_mem_nil

/-- A command for one client touches that client only, and only while it is connected. -/
theorem execute_touches {command : Command} (h : 0 ≤ command.clientIndex) {index : Int}
    (htouches : (server.execute command).1.activeFeatures index ≠ server.activeFeatures index ∨
      ∃ reliable message, Effect.sent index reliable message ∈ (server.execute command).2) :
    index = command.clientIndex ∧ server.slots index ≠ none := by
  rcases server.execute_cases command with hnone | ⟨hconnected, hcase⟩
  · rw [hnone] at htouches
    rcases htouches with hchanged | ⟨reliable, message, hsent⟩
    · exact absurd rfl hchanged
    · exact absurd hsent List.not_mem_nil
  · have hindex : index = command.clientIndex := by
      rcases hcase with hactivate | hdeactivate | hsend
      · rw [hactivate] at htouches
        rcases htouches with hchanged | ⟨reliable, message, hsent⟩
        · exact not_not.1 fun hne => hchanged (activateCommand_others hne)
        · exact Effect.Notifies.sent (activateCommand_notifies command _ hsent)
      · rw [hdeactivate] at htouches
        rcases htouches with hchanged | ⟨reliable, message, hsent⟩
        · exact not_not.1 fun hne => hchanged (deactivateCommand_others hne)
        · exact Effect.Notifies.sent (deactivateCommand_notifies command _ hsent)
      · rw [hsend] at htouches
        rcases htouches with hchanged | ⟨reliable, message, hsent⟩
        · exact absurd rfl hchanged
        · exact sendPayload_sent h hsent
    refine ⟨hindex, fun hslot => hconnected ⟨h, ?_⟩⟩
    simp [isClientConnected, ← hindex, hslot]

theorem Orderly.keepsToItsClient (h : server.Orderly) (action : Action) :
    server.KeepsToItsClient action := by
  rintro rfl queued rest hpending serial hserial index htouches
  have haddressed := h queued (List.mem_append_right _ (hpending ▸ List.mem_cons_self))
  have hindex : 0 ≤ queued.command.clientIndex := haddressed.index (by simp [hserial])
  by_cases hdue : server.running = true ∧ server.phase = .commands
  · have hperform : server.perform .executeNext =
        { server with pending := rest }.execute queued.command := by
      simp only [perform, if_pos hdue, executeNext]
      rw [hpending]
    rw [Touches, Server.after, Server.effects, hperform] at htouches
    obtain ⟨rfl, hslot⟩ := execute_touches hindex htouches
    obtain ⟨session, hsession⟩ := Option.ne_none_iff_exists'.1 hslot
    change server.slots queued.command.clientIndex = some session at hsession
    have hcurrent : server.occupant queued.command.clientIndex = some session.serial := by
      simp [Server.occupant, hsession]
    rw [hcurrent, haddressed.occupant serial hserial session.serial hcurrent]
  · have hperform : server.perform .executeNext = (server, []) := if_neg hdue
    rw [Touches, Server.after, Server.effects, hperform] at htouches
    rcases htouches with hchanged | ⟨reliable, message, hsent⟩
    · exact absurd rfl hchanged
    · exact absurd hsent List.not_mem_nil

end Server

/-! ## Every order of actions -/

section Runs

open Server

variable (registry : FeatureRegistry) (maxClients : Nat) (authScope : Text)

theorem started_orderly : (started registry maxClients authScope).Orderly := by
  intro queued hqueued
  exact absurd hqueued List.not_mem_nil

theorem reached_sound (actions : List Action) :
    (actions.foldl Server.after (started registry maxClients authScope)).Sound :=
  invariant_foldl (fun _ action h => h.after action) (started_sound registry maxClients authScope)
    actions

/-- Features stay gated in every order of actions, and a command touches only the client it was
queued for as long as clients join quietly. -/
theorem features_gated (actions : List Action) :
    (∀ index, (actions.foldl Server.after (started registry maxClients authScope)).active index ⊆
      (actions.foldl Server.after (started registry maxClients authScope)).allowed index) ∧
    Along Server.after Server.Gates (started registry maxClients authScope) actions ∧
    (Along Server.after Server.JoinsQuietly (started registry maxClients authScope) actions →
      Along Server.after Server.KeepsToItsClient (started registry maxClients authScope)
        actions) := by
  refine ⟨(reached_sound registry maxClients authScope actions).allowed,
    along_of_forall gates _ actions, fun hquiet => ?_⟩
  have hkept : ∀ (server : Server) action, server.Sound ∧ server.Orderly →
      server.JoinsQuietly action → (server.after action).Sound ∧ (server.after action).Orderly :=
    fun server action h hjoins => ⟨h.1.after action, h.2.after h.1 hjoins⟩
  exact Along.imp hkept (fun server action h _ => h.2.keepsToItsClient action)
    ⟨started_sound registry maxClients authScope, started_orderly registry maxClients authScope⟩
    hquiet

/-! Two clients hold slot 0 one after the other; the activation queued for the first of them
reaches the second. -/

def chat : FeatureDefinition := ⟨7, 1, "chat"⟩

def chatTicket (clientId : UInt8) : Text :=
  [1, 1, 1, 1, 1, clientId, 0, 0, 0, 0, 0, 0, 0, 1, 0, 0, 0, 0, 0, 0, 0, 2, 0, 0, 0, 0, 0, 0, 0,
    7, 0, 116, 117, 115]

def chatUserData (clientId : UInt8) : UserData :=
  ⟨⟨34 :: 0 :: chatTicket clientId ++ List.replicate 220 0⟩, by
    rw [List.size_toArray, List.length_append, List.length_replicate]
    rfl⟩

def handOver : List Action :=
  [.connect 0 1 (chatUserData 1), .activateFeature 0 7, .disconnect 0,
    .connect 0 2 (chatUserData 2), .takeCommands]

def afterHandOver : Server := handOver.foldl Server.after (started [chat] 1 [115])

theorem activation_reaches_next_client :
    ¬ Along Server.after Server.KeepsToItsClient (started [chat] 1 [115])
      (handOver ++ [.executeNext]) := by
  rw [Along.append]
  rintro ⟨-, hkeeps, -⟩
  have hpending : afterHandOver.pending =
      [⟨{ type := .activateFeature, clientIndex := 0, featureId := 7 }, some 0⟩] := by
    decide +kernel
  have hoccupant : afterHandOver.occupant 0 = some 1 := by decide +kernel
  have htouches : afterHandOver.Touches .executeNext 0 := by
    refine .inr ⟨true, .control ControlAction.activate.code 7 1, ?_⟩
    decide +kernel
  have hissued : afterHandOver.occupant 0 = some 0 :=
    hkeeps rfl _ _ hpending 0 rfl 0 htouches
  rw [hoccupant] at hissued
  exact absurd hissued (by decide)

/-- The first client leaves without a command waiting for it. -/
theorem features_gated_quiet_hand_over :
    Along Server.after Server.KeepsToItsClient (started [chat] 1 [115])
      [.connect 0 1 (chatUserData 1), .activateFeature 0 7, .takeCommands, .executeNext,
        .executeNext, .endTick, .disconnect 0, .connect 0 2 (chatUserData 2)] :=
  (features_gated [chat] 1 [115] _).2.2 (by decide +kernel)

end Runs
end Space2.Realtime
