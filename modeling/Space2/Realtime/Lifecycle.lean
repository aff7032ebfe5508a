import Space2.Base.Runs
import Space2.Realtime.Client

/-!
# The client's lifecycle

A tick compares the transport's state at its end with the one at its start, so what
happens in between goes unseen. As long as a tick that takes a connect command from the
queue ends with the transport moved, and no connect follows a failed worker, the
lifecycle says of every settled connection that it may be opened again.
-/
namespace Space2.Realtime
open Space2.Base

inductive ClientAction
  | connect (clientId : UInt64) (connectToken : Text) (spawns : Bool)
  | disconnect
  | close
  | send (reliable : Bool) (featureId : FeatureId) (payload : Text)
  | turn (tick : Client.Tick)
  | leaveLoop

def ClientCommand.isConnect : ClientCommand → Bool
  | .connect _ _ => true
  | _ => false

def ClientCommand.isConnection : ClientCommand → Bool
  | .connect _ _ | .disconnect => true
  | .sendPayload _ _ _ => false

namespace Client
variable {client : Client}

/-- A call that throws may still have changed the client; the worker leaves its loop once it
finds that it should not run. -/
def after (client : Client) : ClientAction → Client
  | .connect clientId connectToken spawns => (client.connect clientId connectToken spawns).1
  | .disconnect => client.disconnect.1
  | .close => client.close
  | .send reliable featureId payload => (client.send reliable featureId payload).1
  | .turn tick =>
    if client.worker = .looping ∧ client.running = true then client.turn tick else client
  | .leaveLoop =>
    if client.worker = .looping ∧ client.running = false then client.leaveLoop else client

def connectQueued (client : Client) : Bool := client.commands.any ClientCommand.isConnect

/-- What the lifecycle promises between two actions. -/
structure Settled (client : Client) : Prop where
  idle : client.transport.isDisconnected = true → client.connectQueued = false →
    client.lifecycle = .idle ∨ client.lifecycle = .closed
  inactive : client.transport ≠ .connected ∨ client.connected = false → client.activeFeatures = ∅
  single : client.terminated = false

def StaysClosed (client : Client) (action : ClientAction) : Prop :=
  client.lifecycle = .closed → (client.after action).lifecycle = .closed

/-! ## The parts of a tick -/

/-- What only calls and the end of a tick change. -/
structure Frame (before after : Client) : Prop where
  registry : after.registry = before.registry
  lifecycle : after.lifecycle = before.lifecycle
  running : after.running = before.running
  worker : after.worker = before.worker
  connected : after.connected = before.connected
  previousState : after.previousState = before.previousState
  terminated : after.terminated = before.terminated
  commands : after.commands = before.commands

theorem Frame.rfl : client.Frame client := ⟨Eq.refl _, Eq.refl _, Eq.refl _, Eq.refl _, Eq.refl _,
  Eq.refl _, Eq.refl _, Eq.refl _⟩

theorem Frame.trans {first second third : Client} (h : first.Frame second)
    (h' : second.Frame third) : first.Frame third where
  registry := h'.registry.trans h.registry
  lifecycle := h'.lifecycle.trans h.lifecycle
  running := h'.running.trans h.running
  worker := h'.worker.trans h.worker
  connected := h'.connected.trans h.connected
  previousState := h'.previousState.trans h.previousState
  terminated := h'.terminated.trans h.terminated
  commands := h'.commands.trans h.commands

theorem report_frame (what : Report) : client.Frame (client.report what) :=
  ⟨rfl, rfl, rfl, rfl, rfl, rfl, rfl, rfl⟩

theorem processCommand_frame (tick : Tick) (command : ClientCommand) :
    client.Frame (client.processCommand tick command) := by
  cases command with
  | connect clientId connectToken => exact ⟨rfl, rfl, rfl, rfl, rfl, rfl, rfl, rfl⟩
  | disconnect => exact ⟨rfl, rfl, rfl, rfl, rfl, rfl, rfl, rfl⟩
  | sendPayload featureId reliable payload =>
    simp only [processCommand]
    split_ifs
    · exact report_frame _
    · exact report_frame _
    · exact report_frame _
    · exact .rfl

theorem processCommand_activeFeatures (tick : Tick) (command : ClientCommand) :
    (client.processCommand tick command).activeFeatures = client.activeFeatures := by
  cases command with
  | connect clientId connectToken => rfl
  | disconnect => rfl
  | sendPayload featureId reliable payload =>
    simp only [processCommand]
    split_ifs <;> rfl

/-- Where the last command about the connection leaves the transport. -/
def afterConnection (tick : Tick) (transport : Transport) : Option ClientCommand → Transport
  | some (.connect _ connectToken) =>
    if tick.accepts connectToken then .connecting else .disconnected
  | some .disconnect => .disconnected
  | _ => transport

def lastConnection (commands : List ClientCommand) : Option ClientCommand :=
  (commands.filter ClientCommand.isConnection).getLast?

theorem lastConnection_concat (commands : List ClientCommand) (command : ClientCommand) :
    lastConnection (commands ++ [command]) =
      if command.isConnection then some command else lastConnection commands := by
  unfold lastConnection
  rw [List.filter_append]
  cases h : command.isConnection <;> simp [h]

theorem processCommand_transport (tick : Tick) (command : ClientCommand) :
    (client.processCommand tick command).transport =
      if command.isConnection then afterConnection tick client.transport (some command)
      else client.transport := by
  cases command with
  | connect clientId connectToken => rfl
  | disconnect => rfl
  | sendPayload featureId reliable payload =>
    have hkept : (client.processCommand tick (.sendPayload featureId reliable payload)).transport =
        client.transport := by
      simp only [processCommand]
      split_ifs <;> rfl
    exact hkept

/-- The queue has been worked off. -/
structure Executed (tick : Tick) (client result : Client) (commands : List ClientCommand) : Prop where
  frame : client.Frame result
  activeFeatures : result.activeFeatures = client.activeFeatures
  transport : result.transport = afterConnection tick client.transport (lastConnection commands)

theorem executed (tick : Tick) (commands : List ClientCommand) :
    Executed tick client (commands.foldl (processCommand tick) client) commands := by
  induction commands using List.reverseRecOn with
  | nil => exact ⟨.rfl, rfl, rfl⟩
  | append_singleton commands command ih =>
    rw [List.foldl_concat]
    refine ⟨ih.frame.trans (processCommand_frame tick command), ?_, ?_⟩
    · rw [processCommand_activeFeatures, ih.activeFeatures]
    · rw [processCommand_transport, lastConnection_concat]
      cases hconnection : command.isConnection with
      | false => simpa using ih.transport
      | true =>
        cases command with
        | connect clientId connectToken => rfl
        | disconnect => rfl
        | sendPayload => cases hconnection

theorem accept_frame (incoming : Message) : client.Frame (client.accept incoming) := by
  cases incoming with
  | payload featureId payload =>
    simp only [accept]
    split_ifs
    · exact report_frame _
    · exact .rfl
  | control action featureId featureVersion =>
    simp only [accept]
    split_ifs <;> exact ⟨rfl, rfl, rfl, rfl, rfl, rfl, rfl, rfl⟩

theorem accept_transport (incoming : Message) :
    (client.accept incoming).transport = client.transport := by
  cases incoming with
  | payload featureId payload =>
    simp only [accept]
    split_ifs <;> rfl
  | control action featureId featureVersion =>
    simp only [accept]
    split_ifs <;> rfl

def refuses (registry : FeatureRegistry) (incoming : List Message) : Bool :=
  incoming.any fun message => (refusal registry message).isSome

theorem processMessages_frame (incoming : List Message) :
    client.Frame (client.processMessages incoming) := by
  induction incoming generalizing client with
  | nil => exact .rfl
  | cons message rest ih =>
    unfold processMessages
    split
    · exact ⟨rfl, rfl, rfl, rfl, rfl, rfl, rfl, rfl⟩
    · exact (accept_frame message).trans ih

/-- A refused message breaks off the connection and ends the loop over the messages. -/
theorem processMessages_transport (incoming : List Message) :
    if refuses client.registry incoming then
      (client.processMessages incoming).transport = .disconnected ∧
        (client.processMessages incoming).activeFeatures = ∅
    else (client.processMessages incoming).transport = client.transport := by
  induction incoming generalizing client with
  | nil => exact rfl
  | cons message rest ih =>
    unfold processMessages
    cases hrefusal : refusal client.registry message with
    | some text =>
      have hrefuses : refuses client.registry (message :: rest) = true := by
        simp [refuses, hrefusal]
      rw [if_pos hrefuses]
      exact ⟨rfl, rfl⟩
    | none =>
      have hrefuses : refuses client.registry (message :: rest) = refuses client.registry rest := by
        simp [refuses, hrefusal]
      have hrest := @ih (client.accept message)
      rw [(accept_frame message).registry, accept_transport] at hrest
      rw [hrefuses]
      exact hrest

/-- The tick up to the comparison of the transport's states. -/
def moved (tick : Tick) (client : Client) : Client :=
  ((client.commands.foldl (processCommand tick) client.takeCommands).advanceTime
    tick).receiveMessages tick

theorem foldl_map_parts (tick : Tick) (commands : List ClientCommand) (start : Client) :
    (commands.map fun command client => processCommand tick client command).foldl
      (fun client part => part client) start = commands.foldl (processCommand tick) start := by
  induction commands generalizing start with
  | nil => rfl
  | cons command commands ih => exact ih _

theorem turn_of_not_failing {tick : Tick} (h : tick.failsAfter = none) :
    client.turn tick = (client.moved tick).observe := by
  simp only [turn, h, parts, List.cons_append, List.foldl_cons, List.foldl_append,
    foldl_map_parts, List.foldl_nil]
  rfl

/-- The transport at the end of the tick. -/
def finalTransport (tick : Tick) (client : Client) : Transport :=
  let advanced := Transport.move
    (afterConnection tick client.transport (lastConnection client.commands)) tick.advance
  if advanced = .connected ∧ refuses client.registry tick.incoming = true then .disconnected
  else advanced

structure Moved (tick : Tick) (client result : Client) : Prop where
  frame : client.takeCommands.Frame result
  transport : result.transport = client.finalTransport tick
  activeFeatures : client.activeFeatures = ∅ → result.transport ≠ .connected →
    result.activeFeatures = ∅

theorem moved_spec (tick : Tick) : Moved tick client (client.moved tick) := by
  have hexecuted := @executed client.takeCommands tick client.commands
  generalize hresult : client.commands.foldl (processCommand tick) client.takeCommands = result
    at hexecuted
  have hadvanced : (result.advanceTime tick).transport = Transport.move
      (afterConnection tick client.transport (lastConnection client.commands)) tick.advance := by
    simp only [advanceTime, hexecuted.transport]
    rfl
  have hframe : client.takeCommands.Frame (result.advanceTime tick) :=
    hexecuted.frame.trans ⟨rfl, rfl, rfl, rfl, rfl, rfl, rfl, rfl⟩
  have hregistry : (result.advanceTime tick).registry = client.registry := hframe.registry
  have hmoved : client.moved tick = (result.advanceTime tick).receiveMessages tick := by
    rw [moved, hresult]
  rw [hmoved]
  by_cases hconnected : (result.advanceTime tick).transport = .connected
  · have hmessages := @processMessages_transport (result.advanceTime tick) tick.incoming
    have hreceived : (result.advanceTime tick).receiveMessages tick =
        (result.advanceTime tick).processMessages tick.incoming := if_pos hconnected
    rw [hregistry] at hmessages
    rw [hreceived]
    refine ⟨hframe.trans (processMessages_frame _), ?_, ?_⟩
    · by_cases hrefuses : refuses client.registry tick.incoming = true
      · rw [if_pos hrefuses] at hmessages
        simp only [finalTransport, ← hadvanced, hconnected, hrefuses, and_self, if_true]
        exact hmessages.1
      · rw [if_neg hrefuses] at hmessages
        rw [hmessages, finalTransport, ← hadvanced, if_neg fun h => hrefuses h.2]
    · intro _ hlost
      by_cases hrefuses : refuses client.registry tick.incoming = true
      · rw [if_pos hrefuses] at hmessages
        exact hmessages.2
      · rw [if_neg hrefuses, hconnected] at hmessages
        exact absurd hmessages hlost
  · have hreceived : (result.advanceTime tick).receiveMessages tick =
        result.advanceTime tick := if_neg hconnected
    rw [hreceived]
    refine ⟨hframe, ?_, ?_⟩
    · simp only [finalTransport, ← hadvanced, hconnected, false_and, if_false]
    · intro hempty _
      exact hexecuted.activeFeatures.trans hempty

/-! ## Where a client can stand -/

structure Quiet (client : Client) : Prop where
  connected : client.connected = false
  activeFeatures : client.activeFeatures = ∅

/-- The worker is in its loop and has seen the transport's state. -/
structure Live (client : Client) : Prop where
  running : client.running = true
  worker : client.worker = .looping
  previousState : client.previousState = client.transport
  single : client.terminated = false

inductive Standing (client : Client) : Prop
  | closed (hlifecycle : client.lifecycle = .closed) (hrunning : client.running = false)
    (hworker : client.worker = .none) (hquiet : client.Quiet) (hsingle : client.terminated = false)
  | fresh (hlifecycle : client.lifecycle = .idle) (hrunning : client.running = false)
    (hworker : client.worker = .none) (hquiet : client.Quiet)
    (htransport : client.transport.isDisconnected = true) (hqueue : client.connectQueued = false)
    (hsingle : client.terminated = false)
  | failed (hlifecycle : client.lifecycle = .idle) (hrunning : client.running = false)
    (hworker : client.worker ≠ .none) (hquiet : client.Quiet) (hsingle : client.terminated = false)
  | waiting (hlive : client.Live) (hlifecycle : client.lifecycle = .idle) (hquiet : client.Quiet)
    (htransport : client.transport.isDisconnected = true) (hqueue : client.connectQueued = false)
  | requested (hlive : client.Live) (hlifecycle : client.lifecycle = .connecting)
    (hquiet : client.Quiet) (htransport : client.transport.isDisconnected = true)
    (hqueue : client.connectQueued = true)
  | connecting (hlive : client.Live) (hlifecycle : client.lifecycle = .connecting)
    (hquiet : client.Quiet) (htransport : client.transport = .connecting)
    (hqueue : client.connectQueued = false)
  | connected (hlive : client.Live) (hlifecycle : client.lifecycle = .connected)
    (hconnected : client.connected = true) (htransport : client.transport = .connected)
    (hqueue : client.connectQueued = false)

theorem Standing.settled (h : client.Standing) : client.Settled := by
  cases h with
  | closed hlifecycle hrunning hworker hquiet hsingle =>
    exact ⟨fun _ _ => .inr hlifecycle, fun _ => hquiet.activeFeatures, hsingle⟩
  | fresh hlifecycle hrunning hworker hquiet htransport hqueue hsingle =>
    exact ⟨fun _ _ => .inl hlifecycle, fun _ => hquiet.activeFeatures, hsingle⟩
  | failed hlifecycle hrunning hworker hquiet hsingle =>
    exact ⟨fun _ _ => .inl hlifecycle, fun _ => hquiet.activeFeatures, hsingle⟩
  | waiting hlive hlifecycle hquiet htransport hqueue =>
    exact ⟨fun _ _ => .inl hlifecycle, fun _ => hquiet.activeFeatures, hlive.single⟩
  | requested hlive hlifecycle hquiet htransport hqueue =>
    refine ⟨fun _ hnone => ?_, fun _ => hquiet.activeFeatures, hlive.single⟩
    rw [hqueue] at hnone
    cases hnone
  | connecting hlive hlifecycle hquiet htransport hqueue =>
    refine ⟨fun hdown _ => ?_, fun _ => hquiet.activeFeatures, hlive.single⟩
    rw [htransport] at hdown
    cases hdown
  | connected hlive hlifecycle hconnected htransport hqueue =>
    refine ⟨fun hdown _ => ?_, fun hoff => ?_, hlive.single⟩
    · rw [htransport] at hdown
      cases hdown
    · rcases hoff with hoff | hoff
      · exact absurd htransport hoff
      · rw [hconnected] at hoff
        cases hoff

/-! ## One tick -/

theorem observe_of_same (h : client.transport = client.previousState) : client.observe = client :=
  if_pos h

theorem observe_of_changed (h : client.transport ≠ client.previousState) :
    client.observe = { client.observeChange with previousState := client.transport } :=
  if_neg h

theorem setLifecycle_of_open (h : client.lifecycle ≠ .closed) (state : LifecycleState) :
    client.setLifecycle state = { client with lifecycle := state } :=
  if_neg h

theorem observeChange_connected (h : client.transport = .connected)
    (hopen : client.lifecycle ≠ .closed) :
    client.observeChange =
      { client with connected := true, lifecycle := .connected,
                    reports := client.reports ++ [.connected] } := by
  have hset : ({ client with connected := true } : Client).setLifecycle .connected =
      { client with connected := true, lifecycle := .connected } := if_neg hopen
  rw [observeChange, if_pos h, hset]
  rfl

/-- The changes of the transport after which the worker gives the connection up. -/
def seesLoss (previous current : Transport) : Bool :=
  current.isDisconnected && (current = .error || previous = .connecting || previous = .connected)

theorem observeChange_lost (h : seesLoss client.previousState client.transport = true)
    (hopen : client.lifecycle ≠ .closed) :
    ∃ what, client.observeChange =
      { client with connected := false, activeFeatures := ∅, lifecycle := .idle,
                    reports := client.reports ++ [what] } := by
  have hlost : ∀ what, client.lostConnection what =
      { client with connected := false, activeFeatures := ∅, lifecycle := .idle,
                    reports := client.reports ++ [what] } := by
    intro what
    have hclear : ({ client with connected := false, activeFeatures := ∅ } : Client).lifecycle ≠
        .closed := hopen
    rw [lostConnection, setLifecycle_of_open hclear]
    rfl
  unfold observeChange
  simp only [← hlost]
  revert h
  cases client.transport <;> cases client.previousState <;>
    simp [seesLoss, Transport.isDisconnected]

theorem observeChange_unseen (h : client.transport ≠ .connected)
    (hunseen : seesLoss client.previousState client.transport = false) :
    client.observeChange = client := by
  unfold observeChange
  revert h hunseen
  cases client.transport <;> cases client.previousState <;>
    simp [seesLoss, Transport.isDisconnected]

/-- The worker is in its loop and has worked off the queue. -/
structure Turning (client : Client) : Prop where
  running : client.running = true
  worker : client.worker = .looping
  single : client.terminated = false
  commands : client.commands = []
  isOpen : client.lifecycle ≠ .closed

theorem Turning.connectQueued (h : client.Turning) : client.connectQueued = false := by
  simp [Client.connectQueued, h.commands]

theorem Turning.live (h : client.Turning) (hsame : client.transport = client.previousState) :
    client.Live :=
  ⟨h.running, h.worker, hsame.symm, h.single⟩

theorem Turning.lost (h : client.Turning)
    (hchanged : client.transport ≠ client.previousState)
    (hseen : seesLoss client.previousState client.transport = true) : client.observe.Standing := by
  obtain ⟨what, hwhat⟩ := observeChange_lost hseen h.isOpen
  have hdown : client.transport.isDisconnected = true := by
    unfold seesLoss at hseen
    exact (Bool.and_eq_true _ _ ▸ hseen).1
  rw [observe_of_changed hchanged, hwhat]
  exact .waiting ⟨h.running, h.worker, rfl, h.single⟩ rfl ⟨rfl, rfl⟩ hdown h.connectQueued

theorem Turning.unseen (h : client.Turning) (hchanged : client.transport ≠ client.previousState)
    (hdown : client.transport ≠ .connected)
    (hunseen : seesLoss client.previousState client.transport = false) :
    client.observe = { client with previousState := client.transport } := by
  rw [observe_of_changed hchanged, observeChange_unseen hdown hunseen]

theorem Turning.stillWaiting (h : client.Turning) (hidle : client.lifecycle = .idle)
    (hquiet : client.Quiet) (hdown : client.transport.isDisconnected = true) :
    client.observe.Standing := by
  by_cases hsame : client.transport = client.previousState
  · rw [observe_of_same hsame]
    exact .waiting (h.live hsame) hidle hquiet hdown h.connectQueued
  · cases hseen : seesLoss client.previousState client.transport with
    | true => exact h.lost hsame hseen
    | false =>
      have hoff : client.transport ≠ .connected := by
        intro hon
        rw [hon] at hdown
        cases hdown
      rw [h.unseen hsame hoff hseen]
      exact .waiting ⟨h.running, h.worker, rfl, h.single⟩ hidle ⟨hquiet.connected,
        hquiet.activeFeatures⟩ hdown h.connectQueued

theorem Turning.nowConnecting (h : client.Turning) (hlifecycle : client.lifecycle = .connecting)
    (hquiet : client.Quiet) (htransport : client.transport = .connecting) :
    client.observe.Standing := by
  by_cases hsame : client.transport = client.previousState
  · rw [observe_of_same hsame]
    exact .connecting (h.live hsame) hlifecycle hquiet htransport h.connectQueued
  · have hoff : client.transport ≠ .connected := by simp [htransport]
    have hunseen : seesLoss client.previousState client.transport = false := by
      rw [htransport]
      rfl
    rw [h.unseen hsame hoff hunseen]
    exact .connecting ⟨h.running, h.worker, rfl, h.single⟩ hlifecycle ⟨hquiet.connected,
      hquiet.activeFeatures⟩ htransport h.connectQueued

theorem Turning.nowConnected (h : client.Turning) (htransport : client.transport = .connected)
    (hchanged : client.transport ≠ client.previousState) : client.observe.Standing := by
  rw [observe_of_changed hchanged, observeChange_connected htransport h.isOpen]
  exact .connected ⟨h.running, h.worker, rfl, h.single⟩ rfl rfl htransport h.connectQueued

theorem Moved.turning {tick : Tick} {result : Client} (h : Moved tick client result)
    (hlive : client.Live) (hopen : client.lifecycle ≠ .closed) : result.Turning where
  running := h.frame.running.trans hlive.running
  worker := h.frame.worker.trans hlive.worker
  single := h.frame.terminated.trans hlive.single
  commands := h.frame.commands
  isOpen := by
    rw [h.frame.lifecycle]
    exact hopen

theorem Moved.previousState {tick : Tick} {result : Client} (h : Moved tick client result)
    (hlive : client.Live) : result.previousState = client.transport :=
  h.frame.previousState.trans hlive.previousState

theorem Moved.quiet {tick : Tick} {result : Client} (h : Moved tick client result)
    (hquiet : client.Quiet) (hoff : result.transport ≠ .connected) : result.Quiet :=
  ⟨h.frame.connected.trans hquiet.connected, h.activeFeatures hquiet.activeFeatures hoff⟩

/-! ## Where the transport ends up -/

theorem lastConnection_mem {commands : List ClientCommand} {command : ClientCommand}
    (h : lastConnection commands = some command) :
    command ∈ commands ∧ command.isConnection = true :=
  List.mem_filter.1 (List.mem_of_getLast? h)

theorem lastConnection_of_connectQueued (h : client.connectQueued = true) :
    lastConnection client.commands ≠ none := by
  obtain ⟨command, hcommand, hconnect⟩ := List.any_eq_true.1 h
  intro hnone
  have hempty : client.commands.filter ClientCommand.isConnection = [] :=
    List.getLast?_eq_none_iff.1 hnone
  have hconnection : command.isConnection = true := by
    cases command with
    | connect => rfl
    | disconnect => cases hconnect
    | sendPayload => cases hconnect
  exact List.filter_eq_nil_iff.1 hempty command hcommand hconnection

/-- Without a connect in the queue the transport is left alone or disconnected. -/
theorem afterConnection_of_noConnect (h : client.connectQueued = false) (tick : Tick) :
    afterConnection tick client.transport (lastConnection client.commands) = client.transport ∨
      afterConnection tick client.transport (lastConnection client.commands) = .disconnected := by
  cases hlast : lastConnection client.commands with
  | none => exact .inl rfl
  | some command =>
    cases command with
    | connect clientId connectToken =>
      have hconnect := List.any_eq_false.1 h _ (lastConnection_mem hlast).1
      exact absurd rfl hconnect
    | disconnect => exact .inr rfl
    | sendPayload => exact absurd (lastConnection_mem hlast).2 (by simp [ClientCommand.isConnection])

theorem move_of_isDisconnected {transport next : Transport}
    (h : transport.isDisconnected = true) : Transport.move transport next = transport := by
  cases transport <;> first | rfl | cases h

theorem finalTransport_of_waiting (hdown : client.transport.isDisconnected = true)
    (hqueue : client.connectQueued = false) (tick : Tick) :
    (client.finalTransport tick).isDisconnected = true := by
  have hafter : (afterConnection tick client.transport
      (lastConnection client.commands)).isDisconnected = true := by
    rcases afterConnection_of_noConnect hqueue tick with h | h <;> rw [h]
    · exact hdown
    · rfl
  unfold finalTransport
  rw [move_of_isDisconnected hafter]
  dsimp only
  split_ifs
  · rfl
  · exact hafter

theorem finalTransport_of_connected (hconnected : client.transport = .connected)
    (hqueue : client.connectQueued = false) (tick : Tick) :
    client.finalTransport tick ≠ .connecting := by
  have hmove : Transport.move (afterConnection tick client.transport
      (lastConnection client.commands)) tick.advance ≠ .connecting := by
    rcases afterConnection_of_noConnect hqueue tick with h | h <;> rw [h]
    · rw [hconnected]
      cases tick.advance <;> simp [Transport.move]
    · simp [Transport.move]
  unfold finalTransport
  dsimp only
  split_ifs
  · simp
  · exact hmove

/-- The connect that a tick ends on is accepted, and the connection either stays under way or
leaves the transport in a state other than the one it came from. -/
def Lasts (client : Client) (tick : Tick) : Option ClientCommand → Prop
  | some (.connect _ connectToken) =>
    tick.accepts connectToken = true ∧ tick.advance ≠ .disconnected ∧
      (tick.advance = .error → client.transport ≠ .error) ∧
      (tick.advance = .connected → refuses client.registry tick.incoming = false)
  | _ => False

def KeepsConnect (client : Client) (tick : Tick) : Prop :=
  client.connectQueued = true → client.Lasts tick (lastConnection client.commands)

theorem finalTransport_of_requested {tick : Tick} (h : client.KeepsConnect tick)
    (hqueue : client.connectQueued = true) :
    client.finalTransport tick = tick.advance ∧ tick.advance ≠ .disconnected ∧
      (tick.advance = .error → client.transport ≠ .error) := by
  have hkeeps := h hqueue
  cases hlast : lastConnection client.commands with
  | none => exact absurd hlast (lastConnection_of_connectQueued hqueue)
  | some command =>
    rw [hlast] at hkeeps
    cases command with
    | connect clientId connectToken =>
      obtain ⟨haccepts, hdown, herror, hrefuses⟩ := hkeeps
      refine ⟨?_, hdown, herror⟩
      have hafter : afterConnection tick client.transport
          (some (.connect clientId connectToken)) = .connecting := if_pos haccepts
      unfold finalTransport
      rw [hlast, hafter]
      refine if_neg ?_
      rintro ⟨hconnected, hrefused⟩
      rw [hrefuses hconnected] at hrefused
      cases hrefused
    | disconnect => exact hkeeps.elim
    | sendPayload => exact hkeeps.elim

theorem Standing.turn (h : client.Standing) (hrunning : client.running = true) {tick : Tick}
    (hfails : tick.failsAfter = none) (hkeeps : client.KeepsConnect tick) :
    (client.turn tick).Standing := by
  rw [turn_of_not_failing hfails]
  have hmoved := @moved_spec client tick
  generalize client.moved tick = result at hmoved
  have htransport := hmoved.transport
  cases h with
  | closed _ hstopped => exact absurd (hrunning.symm.trans hstopped) (by simp)
  | fresh _ hstopped => exact absurd (hrunning.symm.trans hstopped) (by simp)
  | failed _ hstopped => exact absurd (hrunning.symm.trans hstopped) (by simp)
  | waiting hlive hlifecycle hquiet hdown hqueue =>
    have hturning := hmoved.turning hlive (by simp [hlifecycle])
    have hfinal : result.transport.isDisconnected = true := by
      rw [htransport]
      exact finalTransport_of_waiting hdown hqueue tick
    have hoff : result.transport ≠ .connected := by
      intro hon
      rw [hon] at hfinal
      cases hfinal
    exact hturning.stillWaiting (hmoved.frame.lifecycle.trans hlifecycle)
      (hmoved.quiet hquiet hoff) hfinal
  | requested hlive hlifecycle hquiet hdown hqueue =>
    have hturning := hmoved.turning hlive (by simp [hlifecycle])
    have hprevious := hmoved.previousState hlive
    obtain ⟨hfinal, hnot, herror⟩ := finalTransport_of_requested hkeeps hqueue
    rw [hfinal] at htransport
    cases hadvance : tick.advance with
    | disconnected => exact absurd hadvance hnot
    | error =>
      rw [hadvance] at htransport
      have hfrom : client.transport = .disconnected := by
        have hnoterror := herror hadvance
        revert hdown hnoterror
        cases client.transport <;> simp [Transport.isDisconnected]
      refine hturning.lost ?_ ?_ <;> rw [hprevious, htransport, hfrom]
      · simp
      · rfl
    | connecting =>
      rw [hadvance] at htransport
      exact hturning.nowConnecting (hmoved.frame.lifecycle.trans hlifecycle)
        (hmoved.quiet hquiet (by simp [htransport])) htransport
    | connected =>
      rw [hadvance] at htransport
      refine hturning.nowConnected htransport ?_
      rw [hprevious, htransport]
      intro hsame
      rw [← hsame] at hdown
      cases hdown
  | connecting hlive hlifecycle hquiet hfrom hqueue =>
    have hturning := hmoved.turning hlive (by simp [hlifecycle])
    have hprevious := (hmoved.previousState hlive).trans hfrom
    cases hfinal : result.transport with
    | connecting =>
      exact hturning.nowConnecting (hmoved.frame.lifecycle.trans hlifecycle)
        (hmoved.quiet hquiet (by simp [hfinal])) hfinal
    | connected => exact hturning.nowConnected hfinal (by simp [hfinal, hprevious])
    | disconnected =>
      refine hturning.lost ?_ ?_ <;> rw [hprevious, hfinal]
      · simp
      · rfl
    | error =>
      refine hturning.lost ?_ ?_ <;> rw [hprevious, hfinal]
      · simp
      · rfl
  | connected hlive hlifecycle hconnected hfrom hqueue =>
    have hturning := hmoved.turning hlive (by simp [hlifecycle])
    have hprevious := (hmoved.previousState hlive).trans hfrom
    cases hfinal : result.transport with
    | connecting =>
      exact absurd (htransport.symm.trans hfinal)
        (finalTransport_of_connected hfrom hqueue tick)
    | connected =>
      have hsame : result.transport = result.previousState := hfinal.trans hprevious.symm
      rw [observe_of_same hsame]
      exact .connected (hturning.live hsame) (hmoved.frame.lifecycle.trans hlifecycle)
        (hmoved.frame.connected.trans hconnected) hfinal hturning.connectQueued
    | disconnected =>
      refine hturning.lost ?_ ?_ <;> rw [hprevious, hfinal]
      · simp
      · rfl
    | error =>
      refine hturning.lost ?_ ?_ <;> rw [hprevious, hfinal]
      · simp
      · rfl

/-! ## A worker that fails -/

/-- What no part of a tick changes. -/
structure Aside (before after : Client) : Prop where
  worker : after.worker = before.worker
  terminated : after.terminated = before.terminated
  closed : after.lifecycle = .closed ↔ before.lifecycle = .closed

theorem Aside.rfl : client.Aside client := ⟨Eq.refl _, Eq.refl _, Iff.rfl⟩

theorem Frame.aside {before after : Client} (h : before.Frame after) : before.Aside after :=
  ⟨h.worker, h.terminated, by rw [h.lifecycle]⟩

theorem Aside.trans {first second third : Client} (h : first.Aside second)
    (h' : second.Aside third) : first.Aside third :=
  ⟨h'.worker.trans h.worker, h'.terminated.trans h.terminated, h'.closed.trans h.closed⟩

theorem setLifecycle_aside {state : LifecycleState} (h : state ≠ .closed) :
    client.Aside (client.setLifecycle state) := by
  unfold setLifecycle
  split_ifs with hclosed
  · exact .rfl
  · exact ⟨rfl, rfl, iff_of_false h hclosed⟩

theorem lostConnection_aside (what : Report) : client.Aside (client.lostConnection what) := by
  have hset := @setLifecycle_aside { client with connected := false, activeFeatures := ∅ } .idle
    (by simp)
  exact ⟨hset.worker, hset.terminated, hset.closed⟩

theorem observeChange_aside : client.Aside client.observeChange := by
  unfold observeChange
  split_ifs
  · have hset := @setLifecycle_aside { client with connected := true } .connected (by simp)
    exact ⟨hset.worker, hset.terminated, hset.closed⟩
  · exact lostConnection_aside _
  · exact lostConnection_aside _
  · exact lostConnection_aside _
  · exact .rfl

theorem observe_aside : client.Aside client.observe := by
  unfold observe
  split_ifs
  · exact .rfl
  · exact ⟨observeChange_aside.worker, observeChange_aside.terminated, observeChange_aside.closed⟩

theorem receiveMessages_aside (tick : Tick) : client.Aside (client.receiveMessages tick) := by
  unfold receiveMessages
  split_ifs
  · exact (processMessages_frame _).aside
  · exact .rfl

theorem parts_aside (tick : Tick) {part : Client → Client} (h : part ∈ client.parts tick)
    (state : Client) : state.Aside (part state) := by
  simp only [parts, List.cons_append, List.mem_cons, List.mem_append, List.mem_map,
    List.not_mem_nil, or_false] at h
  rcases h with rfl | ⟨command, -, rfl⟩ | rfl | rfl | rfl
  · exact ⟨rfl, rfl, Iff.rfl⟩
  · exact (processCommand_frame tick command).aside
  · exact ⟨rfl, rfl, Iff.rfl⟩
  · exact receiveMessages_aside tick
  · exact observe_aside

theorem foldl_aside {parts : List (Client → Client)}
    (h : ∀ part ∈ parts, ∀ state : Client, state.Aside (part state)) :
    client.Aside (parts.foldl (fun client part => part client) client) := by
  induction parts generalizing client with
  | nil => exact .rfl
  | cons part parts ih =>
    obtain ⟨hpart, hparts⟩ := List.forall_mem_cons.1 h
    exact (hpart client).trans (ih hparts)

/-- A failed tick leaves a client that is quiet and will not take another turn. -/
theorem turn_of_failing {tick : Tick} {count : Nat} (hfails : tick.failsAfter = some count)
    (hopen : client.lifecycle ≠ .closed) (hworker : client.worker = .looping)
    (hsingle : client.terminated = false) : (client.turn tick).Standing := by
  have haside : client.Aside
      (((client.parts tick).take count).foldl (fun client part => part client) client) :=
    foldl_aside fun part hpart => parts_aside tick (List.mem_of_mem_take hpart)
  simp only [turn, hfails, workerFailed]
  generalize ((client.parts tick).take count).foldl (fun client part => part client) client =
    result at haside
  have hset : ({ result with connected := false, activeFeatures := ∅, running := false } :
      Client).setLifecycle .idle = { result with
        connected := false, activeFeatures := ∅, running := false, lifecycle := .idle } :=
    if_neg (fun hclosed => hopen (haside.closed.1 hclosed))
  rw [hset]
  refine .failed rfl rfl ?_ ⟨rfl, rfl⟩ (haside.terminated.trans hsingle)
  change result.worker ≠ .none
  simp [haside.worker, hworker]

/-! ## Calls -/

theorem Standing.open_of_running (h : client.Standing) (hrunning : client.running = true) :
    client.lifecycle ≠ .closed ∧ client.terminated = false := by
  cases h with
  | closed _ hstopped => exact absurd (hrunning.symm.trans hstopped) (by simp)
  | fresh _ hstopped => exact absurd (hrunning.symm.trans hstopped) (by simp)
  | failed _ hstopped => exact absurd (hrunning.symm.trans hstopped) (by simp)
  | waiting hlive hlifecycle => exact ⟨by simp [hlifecycle], hlive.single⟩
  | requested hlive hlifecycle => exact ⟨by simp [hlifecycle], hlive.single⟩
  | connecting hlive hlifecycle => exact ⟨by simp [hlifecycle], hlive.single⟩
  | connected hlive hlifecycle => exact ⟨by simp [hlifecycle], hlive.single⟩

theorem Standing.leaveLoop (h : client.Standing) (hworker : client.worker = .looping)
    (hrunning : client.running = false) : client.leaveLoop.Standing := by
  have hstopped : ∀ state : Client, state.Live → state.running = false → False := by
    intro state hlive hnot
    exact absurd (hlive.running.symm.trans hnot) (by simp)
  cases h with
  | closed _ _ hnone => exact absurd (hworker.symm.trans hnone) (by simp)
  | fresh _ _ hnone => exact absurd (hworker.symm.trans hnone) (by simp)
  | failed hlifecycle _ _ hquiet hsingle =>
    have hset : ({ client with transport := .disconnected, worker := .finished } :
        Client).setLifecycle .idle = { client with
          transport := .disconnected, worker := .finished, lifecycle := .idle } :=
      if_neg (by simp [hlifecycle])
    rw [Client.leaveLoop, hset]
    exact .failed rfl hrunning (by simp) ⟨hquiet.connected, hquiet.activeFeatures⟩ hsingle
  | waiting hlive => exact (hstopped _ hlive hrunning).elim
  | requested hlive => exact (hstopped _ hlive hrunning).elim
  | connecting hlive => exact (hstopped _ hlive hrunning).elim
  | connected hlive => exact (hstopped _ hlive hrunning).elim

/-- A command that is no connect changes nothing but the queue. -/
theorem Standing.push (h : client.Standing) {command : ClientCommand}
    (hcommand : command.isConnect = false) :
    ({ client with commands := client.commands ++ [command] } : Client).Standing := by
  have hqueue : ({ client with commands := client.commands ++ [command] } : Client).connectQueued =
      client.connectQueued := by
    simp [connectQueued, hcommand]
  cases h with
  | closed hlifecycle hrunning hworker hquiet hsingle =>
    exact .closed hlifecycle hrunning hworker ⟨hquiet.connected, hquiet.activeFeatures⟩ hsingle
  | fresh hlifecycle hrunning hworker hquiet htransport hnone hsingle =>
    exact .fresh hlifecycle hrunning hworker ⟨hquiet.connected, hquiet.activeFeatures⟩ htransport
      (hqueue.trans hnone) hsingle
  | failed hlifecycle hrunning hworker hquiet hsingle =>
    exact .failed hlifecycle hrunning hworker ⟨hquiet.connected, hquiet.activeFeatures⟩ hsingle
  | waiting hlive hlifecycle hquiet htransport hnone =>
    exact .waiting ⟨hlive.running, hlive.worker, hlive.previousState, hlive.single⟩ hlifecycle
      ⟨hquiet.connected, hquiet.activeFeatures⟩ htransport (hqueue.trans hnone)
  | requested hlive hlifecycle hquiet htransport hsome =>
    exact .requested ⟨hlive.running, hlive.worker, hlive.previousState, hlive.single⟩ hlifecycle
      ⟨hquiet.connected, hquiet.activeFeatures⟩ htransport (hqueue.trans hsome)
  | connecting hlive hlifecycle hquiet htransport hnone =>
    exact .connecting ⟨hlive.running, hlive.worker, hlive.previousState, hlive.single⟩ hlifecycle
      ⟨hquiet.connected, hquiet.activeFeatures⟩ htransport (hqueue.trans hnone)
  | connected hlive hlifecycle hconnected htransport hnone =>
    exact .connected ⟨hlive.running, hlive.worker, hlive.previousState, hlive.single⟩ hlifecycle
      hconnected htransport (hqueue.trans hnone)

theorem Standing.enqueue (h : client.Standing) {command : ClientCommand}
    (hcommand : command.isConnect = false) : (client.enqueue command).1.Standing := by
  unfold Client.enqueue
  split_ifs
  · exact h
  · exact h.push hcommand

theorem Standing.disconnect (h : client.Standing) : client.disconnect.1.Standing := by
  unfold Client.disconnect
  split_ifs
  · exact h
  · exact h
  · exact h.enqueue rfl

theorem Standing.send (h : client.Standing) (reliable : Bool) (featureId : FeatureId)
    (payload : Text) : (client.send reliable featureId payload).1.Standing := by
  unfold Client.send
  split_ifs
  · exact h
  · exact h
  · exact h.enqueue rfl

theorem join_cases (client : Client) :
    client.join.worker = .none ∧ client.join.running = client.running ∧
    client.join.terminated = client.terminated ∧ client.join.connected = client.connected ∧
    (client.lifecycle = .closed → client.join.lifecycle = .closed) := by
  unfold join
  cases client.worker with
  | none => exact ⟨rfl, rfl, rfl, rfl, id⟩
  | finished => exact ⟨rfl, rfl, rfl, rfl, id⟩
  | looping =>
    unfold Client.leaveLoop setLifecycle
    dsimp only
    split_ifs with hclosed
    · exact ⟨rfl, rfl, rfl, rfl, id⟩
    · exact ⟨rfl, rfl, rfl, rfl, fun h => absurd h hclosed⟩

theorem Standing.close (h : client.Standing) : client.close.Standing := by
  unfold Client.close
  split_ifs with hclosed
  · exact h
  · obtain ⟨hworker, hrunning, hsingle, hconnected, hlifecycle⟩ := join_cases
      { client with lifecycle := .closed, connected := false, running := false }
    exact .closed (hlifecycle rfl) hrunning hworker ⟨hconnected, rfl⟩
      (hsingle.trans h.settled.single)

/-- No thread is started over one that has ended without being joined. -/
def StartsAlone (client : Client) (clientId : UInt64) (connectToken : Text) (spawns : Bool) :
    Prop :=
  clientId ≠ 0 → connectToken.length = netcodeConnectTokenBytes → client.lifecycle = .idle →
    client.running = false → spawns = true → client.worker = .none

theorem rollbackConnectStart_of_stopped (hrunning : client.running = false)
    (hopen : client.lifecycle ≠ .closed) :
    client.rollbackConnectStart =
      { client with connected := false, activeFeatures := ∅, commands := [], lifecycle := .idle,
                    transport := if client.transport.isDisconnected = true then client.transport
                      else .disconnected } := by
  simp only [rollbackConnectStart, hrunning, Bool.false_eq_true, if_false]
  exact if_neg hopen

theorem connectQueued_concat (commands : List ClientCommand) (clientId : UInt64)
    (connectToken : Text) :
    (commands ++ [ClientCommand.connect clientId connectToken]).any ClientCommand.isConnect =
      true := by
  simp [ClientCommand.isConnect]

/-- The worker that is already in its loop takes the connect. -/
theorem Standing.connect_running (h : client.Standing) (hlifecycle : client.lifecycle = .idle)
    (hrunning : client.running = true) (clientId : UInt64) (connectToken : Text) :
    ({ client with
        lifecycle := .connecting
        commands := client.commands ++ [.connect clientId connectToken] } : Client).Standing := by
  cases h with
  | closed hclosed => exact absurd (hlifecycle.symm.trans hclosed) (by simp)
  | fresh _ hstopped => exact absurd (hrunning.symm.trans hstopped) (by simp)
  | failed _ hstopped => exact absurd (hrunning.symm.trans hstopped) (by simp)
  | waiting hlive _ hquiet htransport _ =>
    exact .requested ⟨hlive.running, hlive.worker, hlive.previousState, hlive.single⟩ rfl
      ⟨hquiet.connected, hquiet.activeFeatures⟩ htransport
      (connectQueued_concat client.commands clientId connectToken)
  | requested _ hother => exact absurd (hlifecycle.symm.trans hother) (by simp)
  | connecting _ hother => exact absurd (hlifecycle.symm.trans hother) (by simp)
  | connected _ hother => exact absurd (hlifecycle.symm.trans hother) (by simp)

theorem Standing.idle_stopped (h : client.Standing) (hlifecycle : client.lifecycle = .idle)
    (hrunning : client.running = false) :
    client.Quiet ∧ (client.worker = .none → client.transport.isDisconnected = true) := by
  cases h with
  | closed hclosed => exact absurd (hlifecycle.symm.trans hclosed) (by simp)
  | fresh _ _ _ hquiet htransport => exact ⟨hquiet, fun _ => htransport⟩
  | failed _ _ hworker hquiet => exact ⟨hquiet, fun hnone => absurd hnone hworker⟩
  | waiting hlive => exact absurd (hrunning.symm.trans hlive.running) (by simp)
  | requested hlive => exact absurd (hrunning.symm.trans hlive.running) (by simp)
  | connecting hlive => exact absurd (hrunning.symm.trans hlive.running) (by simp)
  | connected hlive => exact absurd (hrunning.symm.trans hlive.running) (by simp)

/-- The system refuses the thread and the connect is taken back. -/
theorem Standing.rollback (h : client.Standing) (hrunning : client.running = false) :
    ({ client with lifecycle := .connecting } : Client).rollbackConnectStart.Standing := by
  have hopen : ({ client with lifecycle := .connecting } : Client).lifecycle ≠ .closed := by simp
  rw [@rollbackConnectStart_of_stopped { client with lifecycle := .connecting } hrunning hopen]
  by_cases hworker : client.worker = .none
  · refine .fresh rfl hrunning hworker ⟨rfl, rfl⟩ ?_ rfl h.settled.single
    dsimp only
    split_ifs with hdown
    · exact hdown
    · rfl
  · exact .failed rfl hrunning hworker ⟨rfl, rfl⟩ h.settled.single

theorem Standing.connect (h : client.Standing) {clientId : UInt64} {connectToken : Text}
    {spawns : Bool} (halone : client.StartsAlone clientId connectToken spawns) :
    (client.connect clientId connectToken spawns).1.Standing := by
  unfold Client.connect
  by_cases hclosed : client.lifecycle = .closed
  · rw [if_pos hclosed]
    exact h
  by_cases hid : clientId = 0
  · rw [if_neg hclosed, if_pos hid]
    exact h
  by_cases hlength : connectToken.length = netcodeConnectTokenBytes
  swap
  · rw [if_neg hclosed, if_neg hid, if_pos hlength]
    exact h
  by_cases hlifecycle : client.lifecycle = .idle
  swap
  · rw [if_neg hclosed, if_neg hid, if_neg (not_not.2 hlength), if_pos hlifecycle]
    exact h
  rw [if_neg hclosed, if_neg hid, if_neg (not_not.2 hlength), if_neg (not_not.2 hlifecycle)]
  by_cases hrunning : client.running = true
  · have hstarted : ({ client with lifecycle := .connecting } : Client).startWorker spawns =
        ({ client with lifecycle := .connecting }, none) := by
      simp [startWorker, hrunning]
    rw [hstarted]
    exact h.connect_running hlifecycle hrunning clientId connectToken
  · have hstopped : client.running = false := by simpa using hrunning
    cases hspawns : spawns with
    | false =>
      have hstarted : ({ client with lifecycle := .connecting } : Client).startWorker false =
          ({ client with lifecycle := .connecting }, some "thread constructor failed") := by
        simp [startWorker, hstopped]
      rw [hstarted]
      exact h.rollback hstopped
    | true =>
      have hworker := halone hid hlength hlifecycle hstopped hspawns
      have hstarted : ({ client with lifecycle := .connecting } : Client).startWorker true =
          ({ client with lifecycle := .connecting, running := true, worker := .looping,
                         previousState := client.transport }, none) := by
        simp [startWorker, hstopped, hworker]
      obtain ⟨hquiet, hdown⟩ := h.idle_stopped hlifecycle hstopped
      rw [hstarted]
      exact .requested ⟨rfl, rfl, rfl, h.settled.single⟩ rfl
        ⟨hquiet.connected, hquiet.activeFeatures⟩ (hdown hworker)
        (connectQueued_concat client.commands clientId connectToken)

/-! ## Every run -/

/-- A tick keeps the connect it takes, and no connect follows a failed worker. -/
def Steady (client : Client) : ClientAction → Prop
  | .connect clientId connectToken spawns => client.StartsAlone clientId connectToken spawns
  | .turn tick => client.running = true → tick.failsAfter = none → client.KeepsConnect tick
  | _ => True

theorem Standing.after (h : client.Standing) {action : ClientAction}
    (hsteady : client.Steady action) : (client.after action).Standing := by
  cases action with
  | connect clientId connectToken spawns => exact h.connect hsteady
  | disconnect => exact h.disconnect
  | close => exact h.close
  | send reliable featureId payload => exact h.send reliable featureId payload
  | turn tick =>
    simp only [Client.after]
    split_ifs with hdue
    · cases hfails : tick.failsAfter with
      | none => exact h.turn hdue.2 hfails (hsteady hdue.2 hfails)
      | some count =>
        obtain ⟨hopen, hsingle⟩ := h.open_of_running hdue.2
        exact turn_of_failing hfails hopen hdue.1 hsingle
    · exact h
  | leaveLoop =>
    simp only [Client.after]
    split_ifs with hdue
    · exact h.leaveLoop hdue.1 hdue.2
    · exact h

theorem turn_closed (tick : Tick) (h : client.lifecycle = .closed) :
    (client.turn tick).lifecycle = .closed := by
  unfold Client.turn
  cases tick.failsAfter with
  | none => exact (foldl_aside fun part hpart => parts_aside tick hpart).closed.2 h
  | some count =>
    have haside : client.Aside
        (((client.parts tick).take count).foldl (fun client part => part client) client) :=
      foldl_aside fun part hpart => parts_aside tick (List.mem_of_mem_take hpart)
    exact (setLifecycle_aside (by simp)).closed.2 (haside.closed.2 h)

theorem staysClosed (client : Client) (action : ClientAction) : client.StaysClosed action := by
  intro hclosed
  cases action with
  | connect => simp [Client.after, Client.connect, hclosed]
  | disconnect => simp [Client.after, Client.disconnect, hclosed]
  | close => simp [Client.after, Client.close, hclosed]
  | send => simp [Client.after, Client.send, hclosed]
  | turn tick =>
    simp only [Client.after]
    split_ifs
    · exact turn_closed tick hclosed
    · exact hclosed
  | leaveLoop =>
    simp only [Client.after]
    split_ifs
    · exact (setLifecycle_aside (by simp)).closed.2 hclosed
    · exact hclosed

instance (tick : Tick) : DecidablePred (client.Lasts tick)
  | some (.connect _ connectToken) =>
    inferInstanceAs (Decidable (tick.accepts connectToken = true ∧ tick.advance ≠ .disconnected ∧
      (tick.advance = .error → client.transport ≠ .error) ∧
      (tick.advance = .connected → refuses client.registry tick.incoming = false)))
  | none | some .disconnect | some (.sendPayload _ _ _) => inferInstanceAs (Decidable False)

instance : DecidablePred client.Steady
  | .connect clientId connectToken spawns =>
    inferInstanceAs (Decidable (clientId ≠ 0 → connectToken.length = netcodeConnectTokenBytes →
      client.lifecycle = .idle → client.running = false → spawns = true → client.worker = .none))
  | .turn tick =>
    inferInstanceAs (Decidable (client.running = true → tick.failsAfter = none →
      client.connectQueued = true → client.Lasts tick (lastConnection client.commands)))
  | .disconnect | .close | .send _ _ _ | .leaveLoop => inferInstanceAs (Decidable True)

def created (registry : FeatureRegistry) : Client := { registry }

theorem created_standing (registry : FeatureRegistry) : (created registry).Standing :=
  .fresh rfl rfl rfl ⟨rfl, rfl⟩ rfl rfl rfl

/-- The lifecycle is settled after every run of steady actions, and `Closed` is final in every
run. -/
theorem lifecycle_settled (registry : FeatureRegistry) {actions : List ClientAction}
    (hsteady : Along Client.after Client.Steady (created registry) actions) :
    (actions.foldl Client.after (created registry)).Settled ∧
      ∀ (client : Client) (rest : List ClientAction), Along Client.after StaysClosed client rest :=
  ⟨(Along.invariant (fun _ _ h hnext => h.after hnext) (created_standing registry)
      hsteady).settled,
    fun client rest => along_of_forall staysClosed client rest⟩

def anyToken : Text := List.replicate netcodeConnectTokenBytes 0

/-- A connection that is opened, established, closed by the caller and opened again. -/
theorem lifecycle_settled_reconnecting :
    (([.connect 1 anyToken true, .turn { advance := .connecting }, .turn { advance := .connected },
      .disconnect, .turn { advance := .connected }, .connect 1 anyToken true] :
        List ClientAction).foldl Client.after (created [])).Settled :=
  (lifecycle_settled [] (by decide +kernel)).1

/-- A connect and a disconnect taken at one tick leave the transport as it was: no further
connect is accepted. -/
theorem connect_and_disconnect_in_one_tick :
    ¬ (([.connect 1 anyToken true, .disconnect, .turn { advance := .disconnected }] :
        List ClientAction).foldl Client.after (created [])).Settled := by
  intro h
  have hidle := h.idle (by decide +kernel) (by decide +kernel)
  revert hidle
  decide +kernel

end Client
end Space2.Realtime
