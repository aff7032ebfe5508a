import Space2.Signals.Signal

/-!
# Exact delivery

A hub drops a connection at once, and an emit goes through the connections there were
when it started, calling those that are still there with what was emitted. The signal
does the same, unless a payload that is false or nil is emitted by a method call.
-/
namespace Space2.Signals

variable {Handler Table Other : Type*}

abbrev Connection (Handler : Type*) := ℕ × Handler

/-- A signal as its users see it. -/
structure Hub (Handler Table Other : Type*) where
  connected : List (Connection Handler)
  frames : List (List (Connection Handler) × Value Handler Table Other)
  nextId : ℕ
  events : List (Event Handler Table Other)

def Hub.create : Hub Handler Table Other := ⟨[], [], 0, []⟩

variable [DecidableEq Handler]

/-- Calls the next of the remaining connections that is still connected. -/
def Hub.resume (remaining : List (Connection Handler)) (payload : Value Handler Table Other)
    (rest : List (List (Connection Handler) × Value Handler Table Other)) (hub : Hub Handler Table Other) :
    Hub Handler Table Other :=
  match remaining.dropWhile (· ∉ hub.connected) with
  | connection :: remaining =>
    { hub with
      frames := (remaining, payload) :: rest
      events := hub.events ++ [.called connection.1 connection.2 payload] }
  | [] => { hub with frames := rest, events := hub.events ++ [.returned false] }

def Hub.perform (hub : Hub Handler Table Other) : Action Handler Table Other → Hub Handler Table Other
  | .connect _ (.function handler) =>
    { hub with connected := hub.connected ++ [(hub.nextId, handler)], nextId := hub.nextId + 1 }
  | .connect _ _ => { hub with events := hub.events ++ [.failed "Signal.connect expects a function"] }
  | .disconnect _ handler allow =>
    if hub.connected.any fun connection => connection.2 = handler then
      { hub with connected := hub.connected.eraseP fun connection => connection.2 = handler }
    else if allow = true then hub
    else { hub with events := hub.events ++ [.failed "Signal handler not connected"] }
  | .clear => { hub with connected := [] }
  | .emit _ payload => hub.resume hub.connected payload hub.frames
  | .finish =>
    match hub.frames with
    | [] => hub
    | (remaining, payload) :: rest => hub.resume remaining payload rest
  | .raise =>
    match hub.frames with
    | [] => hub
    | _ :: rest => { hub with frames := rest, events := hub.events ++ [.returned true] }

def Hub.run (actions : List (Action Handler Table Other)) : Hub Handler Table Other :=
  actions.foldl Hub.perform Hub.create

/-! ## The connections of a list of records -/

def Record.connection (record : Record Handler) : Connection Handler := (record.id, record.handler)

def live (records : List (Record Handler)) : List (Connection Handler) :=
  (records.filter Record.isActive).map Record.connection

def Record.inactive (record : Record Handler) : Record Handler := { record with isActive := false }

def inactivate (id : ℕ) (record : Record Handler) : Record Handler :=
  if record.id = id then record.inactive else record

section Records

omit [DecidableEq Handler]

theorem live_cons (record : Record Handler) (records : List (Record Handler)) :
    live (record :: records) =
      if record.isActive = true then record.connection :: live records else live records := by
  rw [live, List.filter_cons]
  split <;> rfl

theorem live_filter (records : List (Record Handler)) : live (records.filter Record.isActive) = live records := by
  simp [live]

theorem mem_live_id {records : List (Record Handler)} {connection : Connection Handler}
    (hmem : connection ∈ live records) : connection.1 ∈ records.map Record.id := by
  obtain ⟨record, hrecord, rfl⟩ := List.mem_map.mp hmem
  exact List.mem_map_of_mem (List.mem_filter.mp hrecord).1

theorem live_inactivate (id : ℕ) (records : List (Record Handler)) :
    live (records.map (inactivate id)) = (live records).filter fun connection => connection.1 ≠ id := by
  induction records with
  | nil => rfl
  | cons record records ih =>
    rw [List.map_cons, live_cons, live_cons, ih]
    by_cases hid : record.id = id
    · have hinactive : (inactivate id record).isActive = false := by
        rw [inactivate, if_pos hid]
        rfl
      rw [if_neg (by simp [hinactive])]
      split
      · simp [Record.connection, hid]
      · rfl
    · rw [inactivate, if_neg hid]
      split
      · simp [Record.connection, hid]
      · rfl

theorem live_inactive (records : List (Record Handler)) : live (records.map Record.inactive) = [] := by
  induction records with
  | nil => rfl
  | cons record records ih => rw [List.map_cons, live_cons, ih]; rfl

theorem findActive_none {callbacks : List (Record Handler)} {idx left : ℕ}
    (hnone : findActive callbacks idx left = none) : live ((callbacks.drop idx).take left) = [] := by
  induction left generalizing idx with
  | zero => rfl
  | succ left ih =>
    rw [findActive_succ] at hnone
    cases hat : callbacks[idx]? with
    | none =>
      rw [List.drop_eq_nil_of_le (List.getElem?_eq_none_iff.mp hat)]
      rfl
    | some record =>
      obtain ⟨hlt, rfl⟩ := List.getElem?_eq_some_iff.mp hat
      simp only [hat] at hnone
      split at hnone
      · cases hnone
      case isFalse hinactive =>
        rw [List.drop_eq_getElem_cons hlt, List.take_succ_cons, live_cons, if_neg hinactive]
        exact ih hnone

theorem findActive_some {callbacks : List (Record Handler)} {idx left next : ℕ} {record : Record Handler}
    (hsome : findActive callbacks idx left = some (next, record)) :
    live ((callbacks.drop idx).take left) =
      record.connection :: live ((callbacks.drop (next + 1)).take (idx + left - (next + 1))) := by
  induction left generalizing idx with
  | zero => cases hsome
  | succ left ih =>
    rw [findActive_succ] at hsome
    have hend : idx + (left + 1) = idx + 1 + left := by omega
    cases hat : callbacks[idx]? with
    | none =>
      simp only [hat] at hsome
      have hrest := ih hsome
      have hlong := List.getElem?_eq_none_iff.mp hat
      rw [List.drop_eq_nil_of_le (hlong.trans (Nat.le_succ idx))] at hrest
      simp [live] at hrest
    | some found =>
      obtain ⟨hlt, rfl⟩ := List.getElem?_eq_some_iff.mp hat
      simp only [hat] at hsome
      rw [List.drop_eq_getElem_cons hlt, List.take_succ_cons, live_cons]
      split at hsome
      case isTrue hactive =>
        cases hsome
        have hleft : next + (left + 1) - (next + 1) = left := by omega
        rw [if_pos hactive, hleft]
      case isFalse hinactive =>
        rw [if_neg hinactive, ih hsome, hend]

end Records

theorem deactivate_none {actual : Handler} {records : List (Record Handler)}
    (hnone : deactivate actual records = none) :
    ((live records).any fun connection => connection.2 = actual) = false := by
  induction records with
  | nil => rfl
  | cons record records ih =>
    rw [deactivate_cons] at hnone
    split at hnone
    · cases hnone
    case isFalse hother =>
      have hrest := ih (Option.map_eq_none_iff.mp hnone)
      rw [live_cons]
      split
      case isTrue hactive =>
        have hne : record.handler ≠ actual := fun heq => hother ⟨hactive, heq⟩
        rw [List.any_cons, hrest, Bool.or_false]
        exact decide_eq_false hne
      case isFalse => exact hrest

/-- The connection that is dropped is the first one of the handler. -/
theorem deactivate_some {actual : Handler} {records records' : List (Record Handler)}
    (hnodup : (records.map Record.id).Nodup) (hsome : deactivate actual records = some records') :
    ∃ id ∈ records.map Record.id, records' = records.map (inactivate id) ∧
      ((live records).any fun connection => connection.2 = actual) = true ∧
      ((live records).eraseP fun connection => connection.2 = actual) =
        (live records).filter fun connection => connection.1 ≠ id := by
  induction records generalizing records' with
  | nil => cases hsome
  | cons record records ih =>
    rw [List.map_cons, List.nodup_cons] at hnodup
    rw [deactivate_cons] at hsome
    split at hsome
    case isTrue hfound =>
      cases hsome
      have hothers : ∀ other ∈ records, inactivate record.id other = other := by
        intro other hother
        have hne : other.id ≠ record.id := fun heq => hnodup.1 (List.mem_map.mpr ⟨other, hother, heq⟩)
        rw [inactivate, if_neg hne]
      have hkept : ∀ connection ∈ live records, connection.1 ≠ record.id := by
        intro connection hmem heq
        have hid := mem_live_id hmem
        rw [heq] at hid
        exact hnodup.1 hid
      refine ⟨record.id, List.mem_cons_self, ?_, ?_, ?_⟩
      · rw [List.map_cons, List.map_congr_left hothers, List.map_id', inactivate, if_pos rfl]
        rfl
      · rw [live_cons, if_pos hfound.1]
        simp [Record.connection, hfound.2]
      · rw [live_cons, if_pos hfound.1, List.eraseP_cons_of_pos (by simp [Record.connection, hfound.2]),
          List.filter_cons_of_neg (by simp [Record.connection])]
        exact (List.filter_eq_self.mpr fun connection hmem => by simpa using hkept connection hmem).symm
    case isFalse hother =>
      obtain ⟨rest, hrest, rfl⟩ := Option.map_eq_some_iff.mp hsome
      obtain ⟨id, hid, rfl, hany, herase⟩ := ih hnodup.2 hrest
      have hne : record.id ≠ id := fun heq => hnodup.1 (heq ▸ hid)
      refine ⟨id, List.mem_cons_of_mem _ hid, ?_, ?_, ?_⟩
      · rw [List.map_cons, inactivate, if_neg hne]
      · rw [live_cons]
        split
        · rw [List.any_cons, hany, Bool.or_true]
        · exact hany
      · rw [live_cons]
        split
        case isTrue hactive =>
          have hhandler : record.handler ≠ actual := fun heq => hother ⟨hactive, heq⟩
          rw [List.eraseP_cons, List.filter_cons, decide_eq_false (p := record.connection.2 = actual) hhandler,
            decide_eq_true (p := record.connection.1 ≠ id) hne, herase]
          rfl
        case isFalse => exact herase

/-! ## The signal follows the hub -/

variable {self : Table} {signal : Signal Handler Table Other} {hub : Hub Handler Table Other}
  {frame : Frame Handler Table Other} {frames rest : List (Frame Handler Table Other)}
  {remaining : List (Connection Handler)} {payload : Value Handler Table Other}
  {hubRest : List (List (Connection Handler) × Value Handler Table Other)}

/-- The records that an emit has yet to look at. -/
def Frame.ahead (callbacks : List (Record Handler)) (frame : Frame Handler Table Other) : List (Record Handler) :=
  (callbacks.drop frame.idx).take (frame.count - frame.idx)

structure FrameAgrees (callbacks : List (Record Handler)) (nextId : ℕ) (connected : List (Connection Handler))
    (frame : Frame Handler Table Other) (hubFrame : List (Connection Handler) × Value Handler Table Other) :
    Prop where
  payload : frame.actual = hubFrame.2
  within : frame.count ≤ callbacks.length
  known : ∀ connection ∈ hubFrame.1, connection.1 < nextId
  ahead : hubFrame.1.filter (· ∈ connected) = live (frame.ahead callbacks)

/-- The two agree while a call is being made, before anything is compacted. -/
structure Follows (signal : Signal Handler Table Other) (hub : Hub Handler Table Other) : Prop where
  connected : hub.connected = live signal.callbacks
  frames : List.Forall₂ (FrameAgrees signal.callbacks signal.nextId hub.connected) signal.frames hub.frames
  depth : signal.emitDepth = signal.frames.length
  nextId : signal.nextId = hub.nextId
  fresh : ∀ record ∈ signal.callbacks, record.id < signal.nextId
  nodup : (signal.callbacks.map Record.id).Nodup
  active : signal.compactPending = false → ∀ record ∈ signal.callbacks, record.isActive = true
  events : signal.events = hub.events

/-- Between calls nothing is left to compact outside of emits. -/
structure Agrees (signal : Signal Handler Table Other) (hub : Hub Handler Table Other) : Prop
    extends Follows signal hub where
  settled : signal.frames = [] → signal.compactPending = false

theorem create_agrees : Agrees (create : Signal Handler Table Other) Hub.create where
  connected := rfl
  frames := .nil
  depth := rfl
  nextId := rfl
  fresh _ h := by cases h
  nodup := List.nodup_nil
  active _ _ h := by cases h
  events := rfl
  settled _ := rfl

theorem Follows.compact (hfollows : Follows signal hub) : Agrees signal.compactCallbacks hub := by
  rw [Signal.compactCallbacks]
  split
  case isTrue hcompact =>
    have hnone : signal.frames = [] := by
      rw [← List.length_eq_zero_iff, ← hfollows.depth]
      exact hcompact.2
    have hhub : hub.frames = [] := by
      have hframes := hfollows.frames
      rw [hnone] at hframes
      exact List.forall₂_nil_left_iff.mp hframes
    refine ⟨⟨?_, ?_, hfollows.depth, hfollows.nextId, fun record hrecord => ?_, ?_, fun _ record hrecord => ?_,
      hfollows.events⟩, fun _ => rfl⟩
    · rw [hfollows.connected, live_filter]
    · rw [hnone, hhub]
      exact .nil
    · exact hfollows.fresh record (List.mem_filter.mp hrecord).1
    · exact hfollows.nodup.sublist (List.Sublist.map _ List.filter_sublist)
    · exact (List.mem_filter.mp hrecord).2
  case isFalse hcompact =>
    refine ⟨hfollows, fun hnone => ?_⟩
    have hzero : signal.emitDepth = 0 := by rw [hfollows.depth, hnone, List.length_nil]
    simpa [hzero] using hcompact

theorem Follows.leave (hfollows : Follows { signal with frames := frame :: rest }
      { hub with frames := (remaining, payload) :: hubRest }) (raised : Bool) :
    Agrees (signal.leave raised rest)
      { hub with frames := hubRest, events := hub.events ++ [.returned raised] } := by
  obtain ⟨hconnected, hframes, hdepth, hnextId, hfresh, hnodup, hactive, hevents⟩ := hfollows
  rw [Signal.leave]
  refine Follows.compact ⟨hconnected, (List.forall₂_cons.mp hframes).2, ?_, hnextId, hfresh, hnodup, hactive, ?_⟩
  · have hlength : signal.emitDepth = rest.length + 1 := hdepth
    change signal.emitDepth - 1 = rest.length
    omega
  · exact congrArg (· ++ [Event.returned raised]) hevents

/-- Both call the same connection next. -/
theorem Follows.resume (hfollows : Follows { signal with frames := frame :: rest }
      { hub with frames := (remaining, payload) :: hubRest }) :
    Agrees (signal.resume frame rest) (hub.resume remaining payload hubRest) := by
  obtain ⟨hconnected, hframes, hdepth, hnextId, hfresh, hnodup, hactive, hevents⟩ := id hfollows
  obtain ⟨hframe, hrest⟩ := List.forall₂_cons.mp hframes
  have hahead : remaining.filter (· ∈ hub.connected) = live (frame.ahead signal.callbacks) := hframe.ahead
  have hskip : remaining.filter (· ∈ hub.connected) =
      (remaining.dropWhile (· ∉ hub.connected)).filter (· ∈ hub.connected) := by
    conv_lhs => rw [← List.takeWhile_append_dropWhile (p := (· ∉ hub.connected)) (l := remaining)]
    rw [List.filter_append]
    have hnone : (remaining.takeWhile (· ∉ hub.connected)).filter (· ∈ hub.connected) = [] :=
      List.filter_eq_nil_iff.mpr fun connection hmem => by
        simpa using List.mem_takeWhile_imp hmem
    rw [hnone, List.nil_append]
  rw [Signal.resume, Hub.resume]
  cases hfound : findActive signal.callbacks frame.idx (frame.count - frame.idx) with
  | none =>
    have hempty : remaining.dropWhile (· ∉ hub.connected) = [] := by
      by_contra hsome
      have hhead := List.head_dropWhile_not (fun connection => decide (connection ∉ hub.connected)) hsome
      have hmem : (remaining.dropWhile (· ∉ hub.connected)).head hsome ∈
          (remaining.dropWhile (· ∉ hub.connected)).filter (· ∈ hub.connected) :=
        List.mem_filter.mpr ⟨List.head_mem hsome, by simpa using hhead⟩
      rw [← hskip, hahead, Frame.ahead, findActive_none hfound] at hmem
      cases hmem
    rw [hempty]
    exact hfollows.leave false
  | some found =>
    obtain ⟨idx, record⟩ := found
    rw [hskip, Frame.ahead, findActive_some hfound] at hahead
    cases hnext : remaining.dropWhile (· ∉ hub.connected) with
    | nil =>
      rw [hnext] at hahead
      cases hahead
    | cons connection after =>
      have hhead := List.head?_dropWhile_not (fun connection => decide (connection ∉ hub.connected)) remaining
      rw [hnext] at hhead
      have hmem : connection ∈ hub.connected := by simpa using hhead
      rw [hnext, List.filter_cons_of_pos (by simpa using hmem), List.cons.injEq] at hahead
      obtain ⟨rfl, hahead⟩ := hahead
      have hsub : ∀ other ∈ after, other ∈ remaining := fun other hother =>
        (List.dropWhile_sublist _).subset (hnext ▸ List.mem_cons_of_mem _ hother)
      refine ⟨⟨hconnected, .cons ⟨hframe.payload, hframe.within, fun other hother => ?_, ?_⟩ hrest, hdepth, hnextId,
        hfresh, hnodup, hactive, ?_⟩, fun hnone => by cases hnone⟩
      · exact hframe.known other (hsub other hother)
      · rw [hahead, Frame.ahead]
        have hleft : frame.count - frame.idx ≠ 0 := by
          intro hzero
          rw [hzero] at hfound
          cases hfound
        have hend : frame.idx + (frame.count - frame.idx) - (idx + 1) = frame.count - (idx + 1) := by omega
        rw [hend]
      · have hpayload : frame.actual = payload := hframe.payload
        have hsame : signal.events = hub.events := hevents
        change signal.events ++ _ = hub.events ++ _
        rw [hsame, hpayload]
        rfl

variable {callbacks : List (Record Handler)} {nextId : ℕ} {connected : List (Connection Handler)}
  {hubFrame : List (Connection Handler) × Value Handler Table Other}

theorem FrameAgrees.connect (hagrees : FrameAgrees callbacks nextId connected frame hubFrame) (handler : Handler) :
    FrameAgrees (callbacks ++ [⟨nextId, handler, true⟩]) (nextId + 1) (connected ++ [(nextId, handler)]) frame
      hubFrame where
  payload := hagrees.payload
  within := by
    rw [List.length_append]
    exact Nat.le_add_right_of_le hagrees.within
  known connection hmem := Nat.lt_succ_of_lt (hagrees.known connection hmem)
  ahead := by
    have hold : ∀ connection ∈ hubFrame.1,
        decide (connection ∈ connected ++ [(nextId, handler)]) = decide (connection ∈ connected) := by
      intro connection hmem
      have hne : connection ≠ (nextId, handler) := by
        rintro rfl
        exact Nat.lt_irrefl _ (hagrees.known _ hmem)
      simp [hne]
    have hahead : frame.ahead (callbacks ++ [⟨nextId, handler, true⟩]) = frame.ahead callbacks := by
      have hwithin := hagrees.within
      rw [Frame.ahead, Frame.ahead]
      by_cases hidx : frame.idx ≤ callbacks.length
      · rw [List.drop_append_of_le_length hidx, List.take_append_of_le_length]
        rw [List.length_drop]
        omega
      · have hzero : frame.count - frame.idx = 0 := by omega
        rw [hzero, List.take_zero, List.take_zero]
    rw [List.filter_congr hold, hahead, hagrees.ahead]

theorem FrameAgrees.disconnect (hagrees : FrameAgrees callbacks nextId connected frame hubFrame) (id : ℕ) :
    FrameAgrees (callbacks.map (inactivate id)) nextId (connected.filter fun connection => connection.1 ≠ id) frame
      hubFrame where
  payload := hagrees.payload
  within := by
    rw [List.length_map]
    exact hagrees.within
  known := hagrees.known
  ahead := by
    have hahead : frame.ahead (callbacks.map (inactivate id)) = (frame.ahead callbacks).map (inactivate id) := by
      rw [Frame.ahead, Frame.ahead, List.map_take, List.map_drop]
    rw [hahead, live_inactivate, ← hagrees.ahead, List.filter_filter]
    refine List.filter_congr fun connection _ => ?_
    simp [and_comm]

theorem FrameAgrees.clear (hagrees : FrameAgrees callbacks nextId connected frame hubFrame) :
    FrameAgrees (callbacks.map Record.inactive) nextId [] frame hubFrame where
  payload := hagrees.payload
  within := by
    rw [List.length_map]
    exact hagrees.within
  known := hagrees.known
  ahead := by
    have hahead : frame.ahead (callbacks.map Record.inactive) = (frame.ahead callbacks).map Record.inactive := by
      rw [Frame.ahead, Frame.ahead, List.map_take, List.map_drop]
    rw [hahead, live_inactive]
    simp

omit [DecidableEq Handler] in
theorem inactivate_id (id : ℕ) (record : Record Handler) : (inactivate id record).id = record.id := by
  rw [inactivate]
  split <;> rfl

theorem Agrees.fail (hagrees : Agrees signal hub) (message : String) :
    Agrees (signal.fail message) { hub with events := hub.events ++ [.failed message] } :=
  ⟨⟨hagrees.connected, hagrees.frames, hagrees.depth, hagrees.nextId, hagrees.fresh, hagrees.nodup, hagrees.active,
    congrArg (· ++ [Event.failed message]) hagrees.events⟩, hagrees.settled⟩

theorem Agrees.connect (hagrees : Agrees signal hub) (handler : Handler) :
    Agrees { signal with
        callbacks := signal.callbacks ++ [⟨signal.nextId, handler, true⟩]
        nextId := signal.nextId + 1 }
      { hub with connected := hub.connected ++ [(hub.nextId, handler)], nextId := hub.nextId + 1 } := by
  have hid := hagrees.nextId
  refine ⟨⟨?_, ?_, hagrees.depth, congrArg (· + 1) hid, ?_, ?_, ?_, hagrees.events⟩, hagrees.settled⟩
  · rw [← hid, hagrees.connected]
    simp [live, Record.connection]
  · rw [← hid]
    exact hagrees.frames.imp fun _ _ h => h.connect handler
  · intro record hrecord
    rcases List.mem_append.mp hrecord with hold | hnew
    · exact Nat.lt_succ_of_lt (hagrees.fresh record hold)
    · rw [List.mem_singleton.mp hnew]
      exact Nat.lt_succ_self _
  · have hnot : signal.nextId ∉ signal.callbacks.map Record.id := by
      intro hmem
      obtain ⟨record, hrecord, heq⟩ := List.mem_map.mp hmem
      exact Nat.ne_of_lt (hagrees.fresh record hrecord) heq
    rw [List.map_append]
    exact List.nodup_append_comm.mp (List.nodup_cons.mpr ⟨hnot, hagrees.nodup⟩)
  · intro hpending record hrecord
    rcases List.mem_append.mp hrecord with hold | hnew
    · exact hagrees.active hpending record hold
    · rw [List.mem_singleton.mp hnew]

theorem Agrees.disconnect {records : List (Record Handler)} {handler : Handler} (hagrees : Agrees signal hub)
    (hsome : deactivate handler signal.callbacks = some records) :
    (hub.connected.any fun connection => connection.2 = handler) = true ∧
      Agrees (Signal.compactCallbacks { signal with callbacks := records, compactPending := true })
        { hub with connected := hub.connected.eraseP fun connection => connection.2 = handler } := by
  obtain ⟨id, -, rfl, hany, herase⟩ := deactivate_some hagrees.nodup hsome
  rw [← hagrees.connected] at hany herase
  refine ⟨hany, Follows.compact ⟨?_, ?_, hagrees.depth, hagrees.nextId, ?_, ?_, (fun h => by cases h), hagrees.events⟩⟩
  · rw [herase, hagrees.connected, live_inactivate]
  · rw [herase]
    exact hagrees.frames.imp fun _ _ h => h.disconnect id
  · intro record hrecord
    obtain ⟨before, hbefore, rfl⟩ := List.mem_map.mp hrecord
    rw [inactivate_id]
    exact hagrees.fresh before hbefore
  · have hids : Record.id ∘ (inactivate id : Record Handler → Record Handler) = Record.id :=
      funext (inactivate_id id)
    rw [List.map_map, hids]
    exact hagrees.nodup

theorem Agrees.clear (hagrees : Agrees signal hub) : Agrees signal.clear { hub with connected := [] } := by
  refine Follows.compact ⟨?_, ?_, hagrees.depth, hagrees.nextId, ?_, ?_, (fun h => by cases h), hagrees.events⟩
  · exact (live_inactive signal.callbacks).symm
  · exact hagrees.frames.imp fun _ _ h => h.clear
  · intro record hrecord
    obtain ⟨before, hbefore, rfl⟩ := List.mem_map.mp hrecord
    exact hagrees.fresh before hbefore
  · rw [List.map_map]
    exact hagrees.nodup

theorem Agrees.emit (hagrees : Agrees signal hub) {first second : Value Handler Table Other}
    (hactual : (if second.truthy = true then second else first) = payload) :
    Agrees (signal.emit first second) (hub.resume hub.connected payload hub.frames) := by
  rw [Signal.emit, hactual]
  let started : Signal Handler Table Other :=
    { signal with frames := ⟨0, signal.callbacks.length, payload⟩ :: signal.frames, emitDepth := signal.emitDepth + 1 }
  have hfollows : Follows started { hub with frames := (hub.connected, payload) :: hub.frames } := by
    refine ⟨hagrees.connected, .cons ⟨rfl, le_rfl, ?_, ?_⟩ hagrees.frames, congrArg (· + 1) hagrees.depth,
      hagrees.nextId, hagrees.fresh, hagrees.nodup, hagrees.active, hagrees.events⟩
    · intro connection hmem
      have hmem : connection ∈ hub.connected := hmem
      rw [hagrees.connected] at hmem
      obtain ⟨record, hrecord, heq⟩ := List.mem_map.mp (mem_live_id hmem)
      rw [← heq]
      exact hagrees.fresh record hrecord
    · change hub.connected.filter (· ∈ hub.connected) = live ((signal.callbacks.drop 0).take (signal.callbacks.length - 0))
      rw [List.drop_zero, Nat.sub_zero, List.take_length, ← hagrees.connected, List.filter_eq_self]
      intro connection hmem
      exact decide_eq_true hmem
  exact Follows.resume hfollows

/-- An emit whose payload arrives: a plain call, or a method call with a payload that is
neither false nor nil. -/
def Action.arrives : Action Handler Table Other → Bool
  | .emit .method payload => payload.truthy
  | _ => true

theorem disconnect_some {records : List (Record Handler)} {handler : Handler} (allow : Bool)
    (hsome : deactivate handler signal.callbacks = some records) :
    signal.disconnect (.function handler) (.boolean allow) .nil =
      Signal.compactCallbacks { signal with callbacks := records, compactPending := true } := by
  simp [Signal.disconnect, hsome]

theorem disconnect_none {handler : Handler} (allow : Bool) (hnone : deactivate handler signal.callbacks = none) :
    signal.disconnect (.function handler) (.boolean allow) .nil =
      if allow = true then signal else signal.fail "Signal handler not connected" := by
  simp [Signal.disconnect, hnone, Value.truthy]

theorem Agrees.performDisconnect (hagrees : Agrees signal hub) (self : Table) (style : Style) (handler : Handler)
    (allow : Bool) :
    Agrees (signal.perform self (.disconnect style handler allow)) (hub.perform (.disconnect style handler allow)) := by
  have hstyle : signal.perform self (.disconnect style handler allow) =
      signal.disconnect (.function handler) (.boolean allow) .nil := by
    cases style <;> rfl
  rw [hstyle, Hub.perform]
  cases hremoved : deactivate handler signal.callbacks with
  | some records =>
    obtain ⟨hany, hnext⟩ := hagrees.disconnect hremoved
    rw [disconnect_some allow hremoved, if_pos hany]
    exact hnext
  | none =>
    have hany := deactivate_none hremoved
    rw [← hagrees.connected] at hany
    rw [disconnect_none allow hremoved, hany, if_neg Bool.false_ne_true]
    cases allow with
    | true => exact hagrees
    | false => exact hagrees.fail _

theorem Agrees.performConnect (hagrees : Agrees signal hub) (self : Table) (style : Style)
    (handler : Value Handler Table Other) :
    Agrees (signal.perform self (.connect style handler)) (hub.perform (.connect style handler)) := by
  cases handler with
  | function actual => cases style <;> exact hagrees.connect actual
  | nil => cases style <;> exact hagrees.fail _
  | boolean value => cases style <;> cases value <;> exact hagrees.fail _
  | table value => cases style <;> exact hagrees.fail _
  | other value => cases style <;> exact hagrees.fail _

theorem Agrees.perform (hagrees : Agrees signal hub) (self : Table) (action : Action Handler Table Other)
    (harrives : action.arrives = true) : Agrees (signal.perform self action) (hub.perform action) := by
  cases action with
  | connect style handler => exact hagrees.performConnect self style handler
  | disconnect style handler allow => exact hagrees.performDisconnect self style handler allow
  | clear => exact hagrees.clear
  | emit style payload =>
    cases style with
    | function => exact hagrees.emit rfl
    | method => exact hagrees.emit (if_pos harrives)
  | finish =>
    have hframes := hagrees.frames
    rw [Signal.perform, Hub.perform]
    cases hsignal : signal.frames with
    | nil =>
      rw [hsignal] at hframes
      rw [List.forall₂_nil_left_iff.mp hframes]
      exact hagrees
    | cons frame rest =>
      rw [hsignal] at hframes
      obtain ⟨⟨remaining, payload⟩, hubRest, -, -, hhub⟩ := List.forall₂_cons_left_iff.mp hframes
      rw [hhub]
      have hfollows : Follows { signal with frames := frame :: rest }
          { hub with frames := (remaining, payload) :: hubRest } := by
        rw [← hsignal, ← hhub]
        exact hagrees.toFollows
      exact hfollows.resume
  | raise =>
    have hframes := hagrees.frames
    rw [Signal.perform, Hub.perform]
    cases hsignal : signal.frames with
    | nil =>
      rw [hsignal] at hframes
      rw [List.forall₂_nil_left_iff.mp hframes]
      exact hagrees
    | cons frame rest =>
      rw [hsignal] at hframes
      obtain ⟨⟨remaining, payload⟩, hubRest, -, -, hhub⟩ := List.forall₂_cons_left_iff.mp hframes
      rw [hhub]
      have hfollows : Follows { signal with frames := frame :: rest }
          { hub with frames := (remaining, payload) :: hubRest } := by
        rw [← hsignal, ← hhub]
        exact hagrees.toFollows
      exact hfollows.leave true

theorem run_agrees (self : Table) (actions : List (Action Handler Table Other))
    (harrives : ∀ action ∈ actions, action.arrives = true) : Agrees (run self actions) (Hub.run actions) := by
  have hstart : Agrees (create : Signal Handler Table Other) Hub.create := create_agrees
  rw [run, Hub.run]
  generalize (create : Signal Handler Table Other) = signal at hstart ⊢
  generalize (Hub.create : Hub Handler Table Other) = hub at hstart ⊢
  induction actions generalizing signal hub with
  | nil => exact hstart
  | cons action actions ih =>
    have hstep := hstart.perform self action (harrives action List.mem_cons_self)
    exact ih (fun action hmem => harrives action (List.mem_cons_of_mem _ hmem)) _ _ hstep

/-- The calls are those of the hub, and what is stored outside of emits is what is connected. -/
def Delivers (self : Table) (actions : List (Action Handler Table Other)) : Prop :=
  (run self actions).events = (Hub.run actions).events ∧
    ((run self actions).frames = [] →
      (run self actions).callbacks = (Hub.run actions).connected.map fun connection =>
        ⟨connection.1, connection.2, true⟩)

theorem delivers_exactly (self : Table) (actions : List (Action Handler Table Other))
    (harrives : ∀ action ∈ actions, action.arrives = true) : Delivers self actions := by
  have hagrees := run_agrees self actions harrives
  refine ⟨hagrees.events, fun hnone => ?_⟩
  have hactive := hagrees.active (hagrees.settled hnone)
  rw [hagrees.connected, live, List.filter_eq_self.mpr hactive, List.map_map]
  refine (List.map_id _).symm.trans (List.map_congr_left fun record hrecord => ?_)
  have htrue := hactive record hrecord
  cases record
  cases htrue
  rfl

/-- The first handler drops the second, connects a third and raises. -/
theorem delivers_exactly_nested :
    Delivers () ([.connect .function (.function 0), .connect .method (.function 1), .emit .method (.other 7),
      .disconnect .method 1 false, .connect .function (.function 2), .raise] : List (Action ℕ Unit ℕ)) :=
  delivers_exactly () _ (by decide)

/-- A handler is called with the signal itself. -/
theorem not_delivers_false :
    ¬ ∀ actions : List (Action ℕ Unit ℕ), Delivers () actions := by
  intro hall
  have hsame : ([.called 0 0 (.table ())] : List (Event ℕ Unit ℕ)) = [.called 0 0 (.boolean false)] :=
    (hall [.connect .function (.function 0), .emit .method (.boolean false)]).1
  cases hsame

end Space2.Signals
