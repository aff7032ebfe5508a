import Space2.Realtime.AuthTicket

/-!
# Auth tickets on the wire

The ticket is written into the user data of the connection behind a length, and a
reader takes back what was written: each reader succeeds exactly on the texts that
start with what the writer writes.
-/
namespace Space2.Realtime
open Space2.Base

/-- The bytes an `append_u8`, `append_u16` or `append_u64` pushes. -/
def appended : Nat → Nat → Text
  | 0, _ => []
  | count + 1, value => UInt8.ofNat (value % 256) :: appended count (value / 256)

def authTicketPayload (ticket : AuthTicket) : Text :=
  authTicketEncodingVersion ::
    UInt8.ofNat ticket.ticketId.length ::
    UInt8.ofNat ticket.subjectUserId.length ::
    UInt8.ofNat ticket.serverScope.length ::
    UInt8.ofNat ticket.allowedFeatures.length ::
    (appended 8 ticket.clientId.toNat ++
      (appended 8 ticket.issuedAt.toUInt64.toNat ++
        (appended 8 ticket.expiresAt.toUInt64.toNat ++
          (ticket.allowedFeatures.flatMap (fun featureId => appended 2 featureId.toNat) ++
            (ticket.ticketId ++ (ticket.subjectUserId ++ ticket.serverScope))))))

/-- The array is zeroed before the text is copied to its start. -/
def filled (text : Text) : UserData := Vector.ofFn fun i => text.getD i 0

def encodeAuthTicket (ticket : AuthTicket) : Except String UserData := do
  validateAuthTicket ticket
  ensure (ticket.ticketId.length ≤ 255 ∧ ticket.subjectUserId.length ≤ 255 ∧
      ticket.serverScope.length ≤ 255)
    "auth ticket string fields exceed transport limits"
  ensure (ticket.allowedFeatures.length ≤ 255)
    "auth ticket allowed-features exceed transport limits"
  let payload := authTicketPayload ticket
  ensure (payload.length ≤ netcodeUserDataBytes - 2)
    "auth ticket too large for connect token user-data"
  return filled (appended 2 payload.length ++ payload)

/-! ## Little-endian bytes -/

@[simp] theorem length_appended (count value : Nat) : (appended count value).length = count := by
  induction count generalizing value with
  | zero => rfl
  | succ count ih => rw [appended, List.length_cons, ih]

theorem littleEndian_appended (count value : Nat) :
    littleEndian (appended count value) = value % 256 ^ count := by
  induction count generalizing value with
  | zero => rw [Nat.pow_zero, Nat.mod_one]; rfl
  | succ count ih =>
    have hbyte : (UInt8.ofNat (value % 256)).toNat = value % 256 :=
      UInt8.toNat_ofNat_of_lt' (Nat.mod_lt _ (by decide))
    rw [appended, littleEndian, ih, hbyte, Nat.pow_succ', Nat.mod_mul]

theorem littleEndian_lt (text : Text) : littleEndian text < 256 ^ text.length := by
  induction text with
  | nil => exact Nat.one_pos
  | cons byte rest ih =>
    have hbyte := byte.toNat_lt
    rw [littleEndian, List.length_cons, Nat.pow_succ']
    omega

theorem appended_littleEndian (text : Text) : appended text.length (littleEndian text) = text := by
  induction text with
  | nil => rfl
  | cons byte rest ih =>
    have hbyte := byte.toNat_lt
    have hmod : (byte.toNat + 256 * littleEndian rest) % 256 = byte.toNat := by omega
    have hdiv : (byte.toNat + 256 * littleEndian rest) / 256 = littleEndian rest := by omega
    rw [List.length_cons, littleEndian, appended, hmod, hdiv, ih, UInt8.ofNat_toNat]

/-! ## Readers -/

/-- The reader succeeds exactly on the texts that start with a written value. -/
def Reads {α : Type} (reader : Reader α) (writes : α → Text → Prop) : Prop :=
  ∀ text a rest, reader text = .ok (a, rest) ↔ ∃ written, writes a written ∧ text = written ++ rest

variable {α β : Type} {writes : α → Text → Prop}

theorem reader_bind_ok {p : Reader α} {f : α → Reader β} {text rest : Text} {b : β} :
    (p >>= f) text = .ok (b, rest) ↔
      ∃ a after, p text = .ok (a, after) ∧ f a after = .ok (b, rest) := by
  change (p text >>= fun answer => f answer.1 answer.2) = .ok (b, rest) ↔ _
  rw [bind_eq_ok]
  exact Prod.exists

theorem Reads.bind {p : Reader α} {f : α → Reader β} {others : α → β → Text → Prop}
    (h : Reads p writes) (hf : ∀ a, Reads (f a) (others a)) :
    Reads (p >>= f) fun b text => ∃ a first second, writes a first ∧ others a b second ∧
      text = first ++ second := by
  intro text b rest
  rw [reader_bind_ok]
  constructor
  · rintro ⟨a, after, hp, hrest⟩
    obtain ⟨first, hfirst, rfl⟩ := (h _ _ _).mp hp
    obtain ⟨second, hsecond, rfl⟩ := (hf a _ _ _).mp hrest
    exact ⟨first ++ second, ⟨a, first, second, hfirst, hsecond, rfl⟩,
      (List.append_assoc first second rest).symm⟩
  · rintro ⟨_, ⟨a, first, second, hfirst, hsecond, rfl⟩, rfl⟩
    refine ⟨a, second ++ rest, (h _ _ _).mpr ⟨first, hfirst, List.append_assoc first second rest⟩, ?_⟩
    exact (hf a _ _ _).mpr ⟨second, hsecond, rfl⟩

theorem Reads.congr {p : Reader α} {others : α → Text → Prop} (h : Reads p writes)
    (hsame : ∀ a text, writes a text ↔ others a text) : Reads p others := by
  intro text a rest
  rw [h]
  simp only [hsame]

theorem reads_return (a : α) : Reads (return a) fun b text => b = a ∧ text = [] := by
  intro text b rest
  change (Except.ok (a, text) : Except String (α × Text)) = .ok (b, rest) ↔ _
  constructor
  · intro hsame
    obtain ⟨rfl, rfl⟩ := Prod.mk.inj (Except.ok.inj hsame)
    exact ⟨[], ⟨rfl, rfl⟩, rfl⟩
  · rintro ⟨_, ⟨rfl, rfl⟩, rfl⟩
    rfl

theorem reads_ensure (condition : Prop) [Decidable condition] (message : String) :
    Reads (liftM (ensure condition message)) fun _ text => condition ∧ text = [] := by
  intro text u rest
  change (ensure condition message >>= fun u => .ok (u, text)) = .ok (u, rest) ↔ _
  rw [bind_eq_ok]
  constructor
  · rintro ⟨_, hchecked, hsame⟩
    obtain ⟨-, rfl⟩ := Prod.mk.inj (Except.ok.inj hsame)
    exact ⟨[], ⟨ensure_eq_ok.mp hchecked, rfl⟩, rfl⟩
  · rintro ⟨_, ⟨hcondition, rfl⟩, rfl⟩
    exact ⟨u, ensure_eq_ok.mpr hcondition, rfl⟩

theorem reads_take (count : Nat) : Reads (take count) fun a text => a.length = count ∧ text = a := by
  intro text a rest
  unfold take
  split_ifs with hcount
  · constructor
    · intro hsame
      obtain ⟨rfl, rfl⟩ := Prod.mk.inj (Except.ok.inj hsame)
      exact ⟨_, ⟨List.length_take_of_le hcount, rfl⟩, (List.take_append_drop count text).symm⟩
    · rintro ⟨_, ⟨rfl, rfl⟩, rfl⟩
      rw [List.take_left, List.drop_left]
  · constructor
    · intro hsame
      cases hsame
    · rintro ⟨_, ⟨rfl, rfl⟩, rfl⟩
      rw [List.length_append] at hcount
      omega

/-- A number of `count` bytes, as the type `α` holds it. -/
theorem reads_number {count : Nat} {ofNat : Nat → α} {toNat : α → Nat}
    (hto : ∀ n < 256 ^ count, toNat (ofNat n) = n) (hof : ∀ a, ofNat (toNat a) = a)
    (hbound : ∀ a, toNat a < 256 ^ count) :
    Reads (do return ofNat (littleEndian (← take count)))
      fun a text => text = appended count (toNat a) := by
  refine ((reads_take count).bind fun taken => reads_return _).congr fun a text => ?_
  constructor
  · rintro ⟨taken, first, second, ⟨hlength, rfl⟩, ⟨rfl, rfl⟩, rfl⟩
    have hlt := hlength ▸ littleEndian_lt first
    rw [hto _ hlt, ← hlength, appended_littleEndian, List.append_nil]
  · rintro rfl
    refine ⟨_, _, [], ⟨length_appended count _, rfl⟩, ⟨?_, rfl⟩, (List.append_nil _).symm⟩
    rw [littleEndian_appended, Nat.mod_eq_of_lt (hbound a), hof]

theorem reads_readU8 : Reads readU8 fun a text => text = appended 1 a.toNat :=
  reads_number (fun _ hn => UInt8.toNat_ofNat_of_lt' hn) (fun _ => UInt8.ofNat_toNat)
    fun a => a.toNat_lt

theorem reads_readU16 : Reads readU16 fun a text => text = appended 2 a.toNat :=
  reads_number (fun _ hn => UInt16.toNat_ofNat_of_lt' hn) (fun _ => UInt16.ofNat_toNat)
    fun a => a.toNat_lt

theorem reads_readU64 : Reads readU64 fun a text => text = appended 8 a.toNat :=
  reads_number (fun _ hn => UInt64.toNat_ofNat_of_lt' hn) (fun _ => UInt64.ofNat_toNat)
    fun a => a.toNat_lt

theorem reads_readFeatures (count : Nat) :
    Reads (readFeatures count) fun features text => features.length = count ∧
      text = features.flatMap fun featureId => appended 2 featureId.toNat := by
  induction count with
  | zero =>
    refine (reads_return []).congr fun features text => ?_
    constructor
    · rintro ⟨rfl, rfl⟩
      exact ⟨rfl, rfl⟩
    · rintro ⟨hnone, rfl⟩
      obtain rfl := List.length_eq_zero_iff.mp hnone
      exact ⟨rfl, rfl⟩
  | succ count ih =>
    refine (reads_readU16.bind fun featureId => ih.bind fun rest =>
      reads_return (featureId :: rest)).congr fun features text => ?_
    constructor
    · rintro ⟨featureId, first, _, rfl, ⟨rest, second, _, ⟨hlength, rfl⟩, ⟨rfl, rfl⟩, rfl⟩, rfl⟩
      rw [List.append_nil]
      exact ⟨by rw [List.length_cons, hlength], rfl⟩
    · rintro ⟨hlength, rfl⟩
      cases features with
      | nil => cases hlength
      | cons featureId rest =>
        exact ⟨featureId, _, _, rfl, ⟨rest, _, [], ⟨Nat.succ.inj hlength, rfl⟩, ⟨rfl, rfl⟩,
          (List.append_nil _).symm⟩, rfl⟩

theorem reads_readAuthTicketString (size : UInt8) :
    Reads (readAuthTicketString size) fun a text => a.length = size.toNat ∧ text = a :=
  reads_take size.toNat

@[simp] theorem appended_byte (byte : UInt8) : appended 1 byte.toNat = [byte] := by
  have hsame := appended_littleEndian [byte]
  rwa [littleEndian, littleEndian, Nat.mul_zero, Nat.add_zero] at hsame

/-- Every size that is written as one byte fits into it. -/
structure AuthTicket.Fits (ticket : AuthTicket) : Prop where
  ticketId : ticket.ticketId.length < 256
  subjectUserId : ticket.subjectUserId.length < 256
  serverScope : ticket.serverScope.length < 256
  allowedFeatures : ticket.allowedFeatures.length < 256

theorem reads_readAuthTicket :
    Reads readAuthTicket fun ticket text => ticket.Fits ∧ text = authTicketPayload ticket := by
  refine (reads_readU8.bind fun version => (reads_ensure _ _).bind fun _ =>
    reads_readU8.bind fun ticketIdSize => reads_readU8.bind fun subjectUserIdSize =>
    reads_readU8.bind fun serverScopeSize => reads_readU8.bind fun featureCount =>
    reads_readU64.bind fun clientId => reads_readU64.bind fun issuedAt =>
    reads_readU64.bind fun expiresAt => (reads_readFeatures featureCount.toNat).bind fun features =>
    (reads_readAuthTicketString ticketIdSize).bind fun ticketId =>
    (reads_readAuthTicketString subjectUserIdSize).bind fun subjectUserId =>
    (reads_readAuthTicketString serverScopeSize).bind fun serverScope => reads_return _).congr
      fun ticket text => ?_
  constructor
  · rintro ⟨version, _, _, rfl, ⟨_, _, _, ⟨hversion, rfl⟩, ⟨ticketIdSize, _, _, rfl,
      ⟨subjectUserIdSize, _, _, rfl, ⟨serverScopeSize, _, _, rfl, ⟨featureCount, _, _, rfl,
      ⟨clientId, _, _, rfl, ⟨issuedAt, _, _, rfl, ⟨expiresAt, _, _, rfl,
      ⟨features, _, _, ⟨hfeatures, rfl⟩, ⟨ticketId, _, _, ⟨hticketId, rfl⟩,
      ⟨subjectUserId, _, _, ⟨hsubjectUserId, rfl⟩, ⟨serverScope, _, _, ⟨hserverScope, rfl⟩,
      ⟨rfl, rfl⟩, rfl⟩, rfl⟩, rfl⟩, rfl⟩, rfl⟩, rfl⟩, rfl⟩, rfl⟩, rfl⟩, rfl⟩, rfl⟩, rfl⟩, rfl⟩
    refine ⟨⟨hticketId ▸ ticketIdSize.toNat_lt, hsubjectUserId ▸ subjectUserIdSize.toNat_lt,
      hserverScope ▸ serverScopeSize.toNat_lt, hfeatures ▸ featureCount.toNat_lt⟩, ?_⟩
    unfold authTicketPayload
    simp only [appended_byte, hversion, hticketId, hsubjectUserId, hserverScope, hfeatures,
      UInt8.ofNat_toNat, UInt64.toUInt64_toInt64, List.append_nil, List.nil_append,
      List.cons_append]
  · rintro ⟨hfits, rfl⟩
    refine ⟨authTicketEncodingVersion, _, _, rfl, ⟨(), [], _, ⟨rfl, rfl⟩,
      ⟨UInt8.ofNat ticket.ticketId.length, _, _, rfl,
      ⟨UInt8.ofNat ticket.subjectUserId.length, _, _, rfl,
      ⟨UInt8.ofNat ticket.serverScope.length, _, _, rfl,
      ⟨UInt8.ofNat ticket.allowedFeatures.length, _, _, rfl, ⟨ticket.clientId, _, _, rfl,
      ⟨ticket.issuedAt.toUInt64, _, _, rfl, ⟨ticket.expiresAt.toUInt64, _, _, rfl,
      ⟨ticket.allowedFeatures, _, _, ⟨?_, rfl⟩, ⟨ticket.ticketId, _, _, ⟨?_, rfl⟩,
      ⟨ticket.subjectUserId, _, _, ⟨?_, rfl⟩, ⟨ticket.serverScope, _, [], ⟨?_, rfl⟩,
      ⟨?_, rfl⟩, rfl⟩, rfl⟩, rfl⟩, rfl⟩, rfl⟩, rfl⟩, rfl⟩, rfl⟩, rfl⟩, rfl⟩, rfl⟩, rfl⟩, ?_⟩
    · exact (UInt8.toNat_ofNat_of_lt' hfits.allowedFeatures).symm
    · exact (UInt8.toNat_ofNat_of_lt' hfits.ticketId).symm
    · exact (UInt8.toNat_ofNat_of_lt' hfits.subjectUserId).symm
    · exact (UInt8.toNat_ofNat_of_lt' hfits.serverScope).symm
    · simp only [Int64.toInt64_toUInt64]
    · unfold authTicketPayload
      simp only [appended_byte, List.append_nil, List.nil_append, List.cons_append]

/-! ## Round trips -/

theorem validated_fits {ticket : AuthTicket} (h : validateAuthTicket ticket = .ok ()) :
    ticket.Fits ∧ (authTicketPayload ticket).length ≤ authTicketTransportPayloadMaxBytes ∧
      authTicketPayload ticket ≠ [] := by
  unfold validateAuthTicket at h
  simp only [bind_eq_ok, ensure_eq_ok, exists_const] at h
  obtain ⟨-, -, -, -, -, -, ⟨hticketId, hsubjectUserId, hserverScope⟩, hcount, -, -, hsize⟩ := h
  unfold authTicketTransportStringMaxBytes at hticketId hsubjectUserId hserverScope
  unfold authTicketTransportMaxFeatureCount at hcount
  have hfeatures : (ticket.allowedFeatures.flatMap fun featureId =>
      appended 2 featureId.toNat).length = ticket.allowedFeatures.length * 2 := by
    rw [List.length_flatMap]
    simp
  refine ⟨⟨by omega, by omega, by omega, by omega⟩, ?_, List.cons_ne_nil _ _⟩
  unfold AuthTicket.encodedPayloadSize at hsize
  unfold authTicketPayload
  simp only [List.length_cons, List.length_append, length_appended, hfeatures]
  omega

theorem encodeAuthTicket_ok {ticket : AuthTicket} (h : validateAuthTicket ticket = .ok ()) :
    encodeAuthTicket ticket =
      .ok (filled (appended 2 (authTicketPayload ticket).length ++ authTicketPayload ticket)) := by
  obtain ⟨hfits, hsize, -⟩ := validated_fits h
  have hstrings : ticket.ticketId.length ≤ 255 ∧ ticket.subjectUserId.length ≤ 255 ∧
      ticket.serverScope.length ≤ 255 :=
    ⟨Nat.le_of_lt_succ hfits.ticketId, Nat.le_of_lt_succ hfits.subjectUserId,
      Nat.le_of_lt_succ hfits.serverScope⟩
  unfold encodeAuthTicket
  rw [bind_eq_ok]
  refine ⟨(), h, ?_⟩
  rw [bind_eq_ok]
  refine ⟨(), ensure_eq_ok.mpr hstrings, ?_⟩
  rw [bind_eq_ok]
  refine ⟨(), ensure_eq_ok.mpr (Nat.le_of_lt_succ hfits.allowedFeatures), ?_⟩
  rw [bind_eq_ok]
  exact ⟨(), ensure_eq_ok.mpr hsize, rfl⟩

theorem take_filled (text : Text) (h : text.length ≤ netcodeUserDataBytes) :
    (filled text).toList.take text.length = text := by
  apply List.ext_getElem?
  intro i
  rw [List.getElem?_take]
  split_ifs with hi
  · have hinside : i < netcodeUserDataBytes := Nat.lt_of_lt_of_le hi h
    rw [List.getElem?_eq_getElem hi, filled, Vector.toList_ofFn, List.getElem?_ofFn, dif_pos hinside]
    simp [hi]
  · rw [List.getElem?_eq_none (by omega)]

/-- The declared payload: its size, and its bytes. -/
def payloadSize (userData : UserData) : Nat := littleEndian (userData.toList.take 2)

def declaredPayload (userData : UserData) : Text :=
  (userData.toList.drop 2).take (payloadSize userData)

theorem decodeAuthTicket_ok {userData : UserData} {ticket : AuthTicket} :
    decodeAuthTicket userData = .ok ticket ↔ payloadSize userData ≠ 0 ∧
      payloadSize userData ≤ netcodeUserDataBytes - 2 ∧
      declaredPayload userData = authTicketPayload ticket ∧
      validateAuthTicket ticket = .ok () := by
  have hread : ∀ rest, readAuthTicket (declaredPayload userData) = .ok (ticket, rest) ↔
      ticket.Fits ∧ declaredPayload userData = authTicketPayload ticket ++ rest := by
    intro rest
    rw [reads_readAuthTicket]
    constructor
    · rintro ⟨_, ⟨hfits, rfl⟩, htext⟩
      exact ⟨hfits, htext⟩
    · rintro ⟨hfits, htext⟩
      exact ⟨_, ⟨hfits, rfl⟩, htext⟩
  unfold decodeAuthTicket
  simp only [bind_eq_ok, ensure_eq_ok, exists_const, Prod.exists, pure_eq_ok]
  change _ ∧ _ ∧ (∃ read rest, readAuthTicket (declaredPayload userData) = .ok (read, rest) ∧ _) ↔ _
  refine and_congr_right fun _ => and_congr_right fun _ => ?_
  constructor
  · rintro ⟨_, rest, hok, rfl, ⟨⟩, hvalid, rfl⟩
    have htext := ((hread []).mp hok).2
    rw [List.append_nil] at htext
    exact ⟨htext, hvalid⟩
  · rintro ⟨htext, hvalid⟩
    refine ⟨ticket, [], (hread []).mpr ⟨(validated_fits hvalid).1, ?_⟩, rfl, ⟨⟩, hvalid, rfl⟩
    rw [List.append_nil, htext]

/-- A ticket that passes the checks comes back from its bytes, bytes that hold a ticket come back
from it, and only the declared payload is read. -/
theorem ticket_survives (ticket : AuthTicket) (userData other : UserData) :
    (validateAuthTicket ticket = .ok () →
      ∃ bytes, encodeAuthTicket ticket = .ok bytes ∧ decodeAuthTicket bytes = .ok ticket) ∧
    (decodeAuthTicket userData = .ok ticket → ∃ bytes, encodeAuthTicket ticket = .ok bytes ∧
      bytes.toList.take (2 + payloadSize userData) =
        userData.toList.take (2 + payloadSize userData)) ∧
    (other.toList.take (2 + payloadSize userData) =
        userData.toList.take (2 + payloadSize userData) →
      decodeAuthTicket other = decodeAuthTicket userData) := by
  have hbytes : ∀ written, validateAuthTicket written = .ok () →
      (filled (appended 2 (authTicketPayload written).length ++ authTicketPayload written)).toList.take
        (2 + (authTicketPayload written).length) =
          appended 2 (authTicketPayload written).length ++ authTicketPayload written := by
    intro written hvalid
    obtain ⟨-, hsize, -⟩ := validated_fits hvalid
    unfold authTicketTransportPayloadMaxBytes at hsize
    have hlength : (appended 2 (authTicketPayload written).length ++
        authTicketPayload written).length = 2 + (authTicketPayload written).length := by
      rw [List.length_append, length_appended]
    have htaken := take_filled (appended 2 (authTicketPayload written).length ++
      authTicketPayload written) (by rw [hlength]; unfold netcodeUserDataBytes; omega)
    rwa [hlength] at htaken
  have hprefix : ∀ (data : UserData) (count : Nat), data.toList.take 2 =
      (data.toList.take (2 + count)).take 2 := by
    intro data count
    rw [List.take_take, Nat.min_eq_left (Nat.le_add_right 2 count)]
  have hpayload : ∀ (data : UserData) (count : Nat), (data.toList.drop 2).take count =
      (data.toList.take (2 + count)).drop 2 := by
    intro data count
    rw [List.drop_take, Nat.add_sub_cancel_left]
  refine ⟨fun hvalid => ⟨_, encodeAuthTicket_ok hvalid, ?_⟩, fun hdecoded => ?_, fun hsame => ?_⟩
  · have htaken := hbytes ticket hvalid
    obtain ⟨-, hsize, hsome⟩ := validated_fits hvalid
    unfold authTicketTransportPayloadMaxBytes at hsize
    generalize filled _ = bytes at htaken ⊢
    have hdeclared : payloadSize bytes = (authTicketPayload ticket).length := by
      rw [payloadSize, hprefix bytes (authTicketPayload ticket).length, htaken, List.take_left' (by simp),
        littleEndian_appended, Nat.mod_eq_of_lt (by omega)]
    refine decodeAuthTicket_ok.mpr ⟨?_, ?_, ?_, hvalid⟩
    · rw [hdeclared]
      exact fun hzero => hsome (List.length_eq_zero_iff.mp hzero)
    · rw [hdeclared]
      exact hsize
    · rw [declaredPayload, hdeclared, hpayload, htaken, List.drop_left' (by simp)]
  · obtain ⟨-, hsize, htext, hvalid⟩ := decodeAuthTicket_ok.mp hdecoded
    refine ⟨_, encodeAuthTicket_ok hvalid, ?_⟩
    have hlength : (authTicketPayload ticket).length = payloadSize userData := by
      rw [← htext, declaredPayload, List.length_take, List.length_drop, Vector.length_toList]
      exact Nat.min_eq_left hsize
    have htaken := hbytes ticket hvalid
    rw [hlength] at htaken
    have hsplit : userData.toList.take (2 + payloadSize userData) =
        userData.toList.take 2 ++ (userData.toList.drop 2).take (payloadSize userData) :=
      List.take_add
    have hlead : appended 2 (payloadSize userData) = userData.toList.take 2 := by
      have hsame := appended_littleEndian (userData.toList.take 2)
      rwa [List.length_take, Vector.length_toList] at hsame
    rw [hlength, htaken, hsplit, hlead, ← htext]
    rfl
  · have hdeclared : payloadSize other = payloadSize userData := by
      rw [payloadSize, hprefix other (payloadSize userData), hsame, ← hprefix, payloadSize]
    have hread : declaredPayload other = declaredPayload userData := by
      rw [declaredPayload, declaredPayload, hdeclared, hpayload, hpayload, hsame]
    unfold payloadSize at hdeclared
    unfold declaredPayload payloadSize at hread
    rw [hdeclared] at hread
    unfold decodeAuthTicket
    simp only [hdeclared, hread]

theorem ticket_survives_dev :
    ∃ bytes, encodeAuthTicket ⟨[0x74], [0x75], 7, [0x73], [1, 3], 5, 9⟩ = .ok bytes ∧
      decodeAuthTicket bytes = .ok ⟨[0x74], [0x75], 7, [0x73], [1, 3], 5, 9⟩ :=
  (ticket_survives ⟨[0x74], [0x75], 7, [0x73], [1, 3], 5, 9⟩ (filled []) (filled [])).1
    (by decide)

end Space2.Realtime
