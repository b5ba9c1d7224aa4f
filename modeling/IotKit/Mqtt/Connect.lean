import IotKit.Mqtt.Operation
import IotKit.Mqtt.Published

/-!
# Connecting

`iotx_mc_connect` asks the hook before the authentication, opens the transport, sends the
CONNECT, waits for the CONNACK, sets the state and asks the hook after the authentication.
Each failure before the state is set closes the transport.  A failure of the last hook leaves
the client connected and the transport open.

The results of the hooks, of `ipstack->connect` and of the writes, and what the broker sends,
are the environment of the call.  A hook that is NULL has no result.
-/

namespace IotKit.Mqtt.Connect

open CMemory

/-! ## The source -/

/-- The packet type `CONNECT`. -/
def connect : Nat := 1
/-- The packet type `PINGREQ`. -/
def pingreq : Nat := 12
/-- The packet type `DISCONNECT`. -/
def disconnect : Nat := 14

/-- `MQTTVersion`: 3 or 4. -/
inductive MqttVersion where
  | v31
  | v311
deriving DecidableEq, Repr

/-- `MQTTPacket_willOptions`. -/
structure WillOptions where
  topicName : Option Bytes
  message : Option Bytes
  retained : Nat
  qos : Nat
deriving DecidableEq, Repr

/-- `MQTTPacket_connectData`.  A string is its `cstring`, since `lenstring` is never set. -/
structure ConnectData where
  mqttVersion : MqttVersion
  clientID : Option Bytes
  keepAliveInterval : Nat
  cleansession : Nat
  willFlag : Bool
  will : WillOptions
  username : Option Bytes
  password : Option Bytes
deriving DecidableEq, Repr

/-- `MQTTstrlen`. -/
def mqttStrlen (s : Option Bytes) : Nat := (s.getD []).length

/-- `writeMQTTString`: the bytes written. -/
def writeMqttString (s : Option Bytes) : Bytes := be16 (mqttStrlen s) ++ s.getD []

/-- The bytes of a string that is left out where it is NULL. -/
def writeOptional (s : Option Bytes) : Bytes := if s.isSome then writeMqttString s else []

/-- `MQTTSerialize_connectLength`. -/
def mqttSerializeConnectLength (options : ConnectData) : Nat :=
  (match options.mqttVersion with
    | .v31 => 12
    | .v311 => 10) +
  (mqttStrlen options.clientID + 2) +
  (if options.willFlag then
    mqttStrlen options.will.topicName + 2 + (mqttStrlen options.will.message + 2) else 0) +
  (if options.username.isSome then mqttStrlen options.username + 2 else 0) +
  (if options.password.isSome then mqttStrlen options.password + 2 else 0)

/-- The name and the level of the protocol. -/
def protocol : MqttVersion → Bytes
  | .v311 => be16 4 ++ [77, 81, 84, 84] ++ [4]
  | .v31 => be16 6 ++ [77, 81, 73, 115, 100, 112] ++ [3]

/-- The byte of `MQTTConnectFlags`. -/
def connectFlags (options : ConnectData) : UInt8 :=
  UInt8.ofNat (2 * (options.cleansession % 2) +
    (if options.willFlag then
      4 + 8 * (options.will.qos % 4) + 32 * (options.will.retained % 2) else 0) +
    (if options.password.isSome then 64 else 0) + (if options.username.isSome then 128 else 0))

/-- A CONNECT. -/
def connectPacket (options : ConnectData) : Bytes :=
  UInt8.ofNat (16 * connect) :: (mqttPacketEncode (mqttSerializeConnectLength options) ++
    (protocol options.mqttVersion ++ ([connectFlags options] ++
      (be16 options.keepAliveInterval ++ (writeMqttString options.clientID ++
        ((if options.willFlag then
          writeMqttString options.will.topicName ++ writeMqttString options.will.message else []) ++
        (writeOptional options.username ++ writeOptional options.password)))))))

/-- `MQTTSerialize_connect`: the result and the buffer. -/
def mqttSerializeConnect (buf : Bytes) (options : ConnectData) : Checked (Int × Bytes) :=
  if buf.length < mqttPacketLen (mqttSerializeConnectLength options) then
    .ok (mqttPacketBufferTooShort, buf)
  else do
    let packet := connectPacket options
    let buf ← storeN buf 0 packet
    .ok (packet.length, buf)

/-- `MQTTSerialize_zero`: the result and the buffer. -/
def mqttSerializeZero (buf : Bytes) (packettype : Nat) : Checked (Int × Bytes) :=
  if buf.length < 2 then .ok (mqttPacketBufferTooShort, buf)
  else do
    let packet := UInt8.ofNat (16 * packettype) :: mqttPacketEncode 0
    let buf ← storeN buf 0 packet
    .ok (packet.length, buf)

/-- `MQTTConnect`. -/
def mqttConnect (c : McClient) (connectData : ConnectData) (writes : List Int) :
    Checked (Int × McClient) := do
  let (len, bufSend) ← mqttSerializeConnect c.bufSend connectData
  let c := { c with bufSend }
  if len ≤ 0 then .ok (mqttConnectPacketError, c)
  else do
    let res ← iotxMcSendPacket c.bufSend len.toNat writes
    .ok (if res.rc ≠ successReturn then mqttNetworkError else successReturn, c)

/-- `MQTTDisconnect`. -/
def mqttDisconnect (c : McClient) (writes : List Int) : Checked (Int × McClient) := do
  let (len, bufSend) ← mqttSerializeZero c.bufSend disconnect
  let c := { c with bufSend }
  if 0 < len then do
    let res ← iotxMcSendPacket c.bufSend len.toNat writes
    .ok (res.rc, c)
  else .ok (failReturn, c)

/-- What one call of `iotx_mc_connect` meets. -/
structure ConnectEnv where
  /-- The result of `mqtt_pre_auth_process`. -/
  preAuth : Option Int
  /-- The result of `ipstack->connect`. -/
  connected : Int
  connectWrites : List Int
  world : World
  disconnectWrites : List Int
  /-- The result of `mqtt_post_auth_process`. -/
  postAuth : Option Int

/-- A call of the transport, with the result of `ipstack->connect`. -/
inductive TransportCall where
  | connect (rc : Int)
  | disconnect
deriving DecidableEq, Repr

structure ConnectResult where
  rc : Int
  client : McClient
  transport : List TransportCall
  world : World

/-- A hook is there and fails. -/
def hookFails (hook : Option Int) : Bool := hook.any fun rc => rc ≠ successReturn

/-- `iotx_mc_connect` from the wait for the CONNACK on. -/
def awaitConnack (c : McClient) (env : ConnectEnv) : Checked ConnectResult := do
  let wait ← iotxMcWaitConnack c.bufRead env.world
  let c := { c with bufRead := wait.bufRead }
  if wait.rc ≠ successReturn then do
    let (_, c) ← mqttDisconnect c env.disconnectWrites
    .ok ⟨mqttConnectError, c, [.connect successReturn, .disconnect], wait.world⟩
  else
    let c := iotxMcSetClientState c .connected
    if hookFails env.postAuth then .ok ⟨failReturn, c, [.connect successReturn], wait.world⟩
    else .ok ⟨successReturn, c, [.connect successReturn], wait.world⟩

/-- `iotx_mc_connect`. -/
def iotxMcConnect (c : McClient) (connectData : ConnectData) (env : ConnectEnv) :
    Checked ConnectResult :=
  if hookFails env.preAuth then .ok ⟨failReturn, c, [], env.world⟩
  else if env.connected ≠ successReturn then
    .ok ⟨if env.connected = errorCertificateExpired then errorCertVerifyFail
      else mqttNetworkConnectError, c, [.connect env.connected, .disconnect], env.world⟩
  else do
    let (rc, c) ← mqttConnect c connectData env.connectWrites
    if rc ≠ successReturn then
      .ok ⟨rc, c, [.connect successReturn, .disconnect], env.world⟩
    else awaitConnack c env

/-! ## Specification -/

/-- A hook is NULL or succeeds. -/
def HookOk (hook : Option Int) : Prop := hook = none ∨ hook = some successReturn

instance (hook : Option Int) : Decidable (HookOk hook) := inferInstanceAs (Decidable (_ ∨ _))

/-- Among the next `left` packets the first CONNACK is one that accepts the connection. -/
inductive Accepted : Nat → Bytes → Nat → World → Prop where
  | now {left packetType : Nat} {buf : Bytes} {w : World} {r : ReadResult} :
      iotxMcReadPacket buf packetType w = .ok r → r.rc = successReturn →
      r.packetType = connack → mqttDeserializeConnack r.bufRead = .ok (1, 0) →
      Accepted (left + 1) buf packetType w
  | later {left packetType : Nat} {buf : Bytes} {w : World} {r : ReadResult} :
      iotxMcReadPacket buf packetType w = .ok r → r.rc = successReturn →
      r.packetType ≠ connack → Accepted left r.bufRead r.packetType r.world →
      Accepted (left + 1) buf packetType w

/-- The transport is opened, takes the CONNECT and brings an accepting CONNACK. -/
structure Received (c : McClient) (connectData : ConnectData) (env : ConnectEnv) : Prop where
  opened : env.connected = successReturn
  sent : ∃ c', mqttConnect c connectData env.connectWrites = .ok (successReturn, c')
  accepted : Accepted waitConnackMax c.bufRead 0 env.world

/-- Whether a transport that was closed is open after the calls. -/
def isOpen (calls : List TransportCall) : Bool :=
  match calls.getLast? with
  | some (.connect rc) => decide (rc = successReturn)
  | _ => false

/-- What a call that ends owes. -/
structure AllOrNothing (c : McClient) (connectData : ConnectData) (env : ConnectEnv)
    (r : ConnectResult) : Prop where
  success : r.rc = successReturn ↔ r.client.clientState = .connected ∧
    Received c connectData env ∧ HookOk env.preAuth ∧ HookOk env.postAuth
  failure : r.rc ≠ successReturn →
    r.client.clientState = c.clientState ∧ isOpen r.transport = false

/-- The hook after the authentication is not the one that fails. -/
def PostAuthSafe (c : McClient) (connectData : ConnectData) (env : ConnectEnv) : Prop :=
  HookOk env.preAuth → Received c connectData env → HookOk env.postAuth

/-- The language gives the call no meaning: the read buffer does not hold the head of a packet,
the CONNECT is longer than a remaining length can say, or the network takes bytes from behind
the send buffer. -/
def Outside (c : McClient) (connectData : ConnectData) (env : ConnectEnv) : Prop :=
  c.bufRead.length < 5 ∨ 128 ^ 4 ≤ mqttSerializeConnectLength connectData ∨
    ¬WritesInside c.bufSend.length (connectPacket connectData).length env.connectWrites 0 ∨
    ¬WritesInside c.bufSend.length 2 env.disconnectWrites 0

/-! ## Any bytes from the broker -/

/-- The buffer begins with the header and the remaining length of a packet that it holds. -/
def Framed (buf : Bytes) (packetType : Nat) : Prop :=
  ∃ header remLen, headerType header = packetType ∧ remLen < 128 ^ 4 ∧
    1 + (mqttPacketEncode remLen).length + remLen ≤ buf.length ∧
    buf.take (1 + (mqttPacketEncode remLen).length) = header :: mqttPacketEncode remLen

theorem decodeLoop_lt {left len value multiplier : Nat} {w : World} (hvalue : value < multiplier)
    {rc : Int} {value' : Nat} {w' : World}
    (hrun : decodeLoop left len value multiplier w = (rc, value', w')) :
    value' < multiplier * 128 ^ left := by
  induction left generalizing len value multiplier w with
  | zero =>
      cases hrun
      rwa [Nat.pow_zero, Nat.mul_one]
  | succ left ih =>
      rw [decodeLoop] at hrun
      split at hrun
      next i w₁ _ =>
        have hdigit : value + i.toNat % 128 * multiplier < multiplier * 128 := by
          have hle : i.toNat % 128 * multiplier ≤ 127 * multiplier :=
            Nat.mul_le_mul_right _ (by omega)
          omega
        have hpow : multiplier * 128 * 128 ^ left = multiplier * 128 ^ (left + 1) := by
          rw [Nat.pow_succ, Nat.mul_assoc, Nat.mul_comm 128]
        dsimp only at hrun
        split at hrun
        · exact hpow ▸ ih hdigit hrun
        · cases hrun
          exact hpow ▸ Nat.lt_of_lt_of_le hdigit
            (Nat.le_mul_of_pos_right _ (Nat.pow_pos (by decide)))
      next =>
        cases hrun
        exact Nat.lt_of_lt_of_le hvalue (Nat.le_mul_of_pos_right _ (Nat.pow_pos (by decide)))

/-- The body of a packet that fits leaves its head in the buffer. -/
theorem keepPacket_total {buf : Bytes} {header : UInt8} {head : Bytes} {len remLen : Nat}
    (packetType : Nat) (w : World) (hhead : buf.take len = header :: head)
    (hfit : remLen + len ≤ buf.length) :
    ∃ r, keepPacket buf packetType len remLen w = .ok r ∧ r.bufRead.length = buf.length ∧
      (r.rc = successReturn →
        r.packetType = headerType header ∧ r.bufRead.take len = header :: head) := by
  have hlen : 0 < len := by
    rcases Nat.eq_zero_or_pos len with rfl | hpos
    · cases hhead
    · exact hpos
  have hload : ∀ {m : Bytes}, m.take len = header :: head → load m 0 = .ok header := by
    intro m hm
    refine load_eq_ok.mpr ?_
    rw [← List.getElem?_take_of_lt hlen, hm]
    rfl
  rw [keepPacket]
  split
  next hpos =>
    generalize hread : w.read remLen = x
    obtain ⟨rc, data, w₁⟩ := x
    have hle : data.length ≤ remLen := World.read_le hread
    have hstore := storeN_of_le (show len + data.length ≤ buf.length by omega)
    have hsame := storeN_length hstore
    have hfront : (buf.take len ++ (data ++ buf.drop (len + data.length))).take len =
        header :: head := by
      rw [List.take_left' (by rw [List.length_take]; omega), hhead]
    simp only [hstore, ok_bind, hload hfront]
    split
    next => exact ⟨_, rfl, hsame, fun h => absurd h failReturn_ne_success⟩
    next => exact ⟨_, rfl, hsame, fun _ => ⟨rfl, hfront⟩⟩
  next => exact ⟨_, by rw [hload hhead, ok_bind], rfl, fun _ => ⟨rfl, hhead⟩⟩

/-- A packet that does not fit leaves the packet type alone. -/
theorem dropPacket_total {buf : Bytes} {len : Nat} (packetType remLen : Nat) (w : World)
    (hlen : len ≤ buf.length) :
    ∃ r, dropPacket buf packetType len remLen w = .ok r ∧ r.bufRead.length = buf.length ∧
      (r.rc = successReturn → r.packetType = packetType) := by
  rw [dropPacket]
  generalize hread : w.read (buf.length - len) = x
  obtain ⟨rc, data, w₁⟩ := x
  have hle : data.length ≤ buf.length - len := World.read_le hread
  have hstore := storeN_of_le (show len + data.length ≤ buf.length by omega)
  have hsame := storeN_length hstore
  simp only [hstore, ok_bind]
  split
  next => exact ⟨_, rfl, hsame, fun _ => rfl⟩
  next =>
    split
    next => exact ⟨_, rfl, hsame, fun _ => rfl⟩
    next =>
      split
      next => exact ⟨_, rfl, hsame, fun _ => rfl⟩
      next => exact ⟨_, rfl, hsame, fun _ => rfl⟩

/-- A packet that is read is framed in the buffer, or its type is the one that was there. -/
theorem readRest_total {buf : Bytes} {header : UInt8} {remLen : Nat} (packetType : Nat)
    (w : World) (h5 : 5 ≤ buf.length) (hhead : buf.take 1 = [header]) (hlen : remLen < 128 ^ 4) :
    ∃ r, readRest buf packetType remLen w = .ok r ∧ r.bufRead.length = buf.length ∧
      (r.rc = successReturn → r.packetType = packetType ∨ Framed r.bufRead r.packetType) := by
  have h4 : (mqttPacketEncode remLen).length ≤ 4 := mqttPacketEncode_length_le hlen
  have hfit : 1 + (mqttPacketEncode remLen).length ≤ buf.length := by omega
  have hstore : storeN buf 1 (mqttPacketEncode remLen) = .ok _ := storeN_of_le hfit
  have hsame := storeN_length hstore
  rw [readRest, hstore, ok_bind]
  generalize hbuf : buf.take 1 ++ (mqttPacketEncode remLen ++
    buf.drop (1 + (mqttPacketEncode remLen).length)) = buf' at hsame
  have hfront : buf'.take (1 + (mqttPacketEncode remLen).length) =
      header :: mqttPacketEncode remLen := by
    rw [← hbuf, hhead, ← List.append_assoc]
    exact List.take_left' (by rw [List.length_append]; rfl)
  dsimp only
  split
  next hbig =>
    obtain ⟨r, hrun, hlength, htype⟩ := dropPacket_total packetType remLen w
      (show 1 + (mqttPacketEncode remLen).length ≤ buf'.length by omega)
    exact ⟨r, hrun, hlength.trans hsame, fun hrc => Or.inl (htype hrc)⟩
  next hsmall =>
    have hroom : remLen + (1 + (mqttPacketEncode remLen).length) ≤ buf'.length := by omega
    obtain ⟨r, hrun, hlength, htype⟩ := keepPacket_total packetType w hfront hroom
    refine ⟨r, hrun, hlength.trans hsame, fun hrc => Or.inr ?_⟩
    obtain ⟨hrtype, hrfront⟩ := htype hrc
    exact ⟨header, remLen, hrtype.symm, hlen, by omega, hrfront⟩

/-- `iotx_mc_read_packet` stays inside a read buffer of five bytes. -/
theorem iotxMcReadPacket_total {buf : Bytes} (packetType : Nat) (w : World)
    (h5 : 5 ≤ buf.length) :
    ∃ r, iotxMcReadPacket buf packetType w = .ok r ∧ r.bufRead.length = buf.length ∧
      (r.rc = successReturn →
        r.packetType = 0 ∨ r.packetType = packetType ∨ Framed r.bufRead r.packetType) := by
  rw [iotxMcReadPacket]
  generalize hread : w.read 1 = x
  obtain ⟨rc, data, w₁⟩ := x
  dsimp only
  split
  next => exact ⟨_, rfl, rfl, fun _ => Or.inl rfl⟩
  next =>
  split
  next => exact ⟨_, rfl, rfl, fun _ => Or.inr (Or.inl rfl)⟩
  next hone =>
    obtain ⟨b, rfl⟩ : ∃ b, data = [b] := by
      rcases w.read_cases 1 hread with ⟨hrc, _, _⟩ | ⟨hneg, _⟩
      · exact List.length_eq_one_iff.mp (by omega)
      · omega
    have hstore : storeN buf 0 [b] = .ok _ :=
      storeN_of_le (show (0 : Nat) + [b].length ≤ buf.length by rw [List.length_singleton]; omega)
    have hsame := storeN_length hstore
    rw [hstore, ok_bind]
    generalize hbuf : buf.take 0 ++ ([b] ++ buf.drop (0 + [b].length)) = buf' at hsame
    have hhead : buf'.take 1 = [b] := by
      rw [← hbuf]
      rfl
    generalize hdecode : iotxMcDecodePacket w₁ = y
    obtain ⟨rc', remLen, w₂⟩ := y
    dsimp only
    split
    next hneg =>
      refine ⟨_, rfl, hsame, fun hrc => ?_⟩
      exact absurd (show rc' = 0 from hrc) (Int.ne_of_lt hneg)
    next =>
      have hlen : remLen < 1 * 128 ^ 4 := decodeLoop_lt Nat.zero_lt_one hdecode
      rw [Nat.one_mul] at hlen
      obtain ⟨r, hrun, hlength, htype⟩ := readRest_total packetType w₂
        (hsame.symm ▸ h5) hhead hlen
      exact ⟨r, hrun, hlength.trans hsame, fun hrc => Or.inr (htype hrc)⟩

/-! ## The CONNACK -/

theorem mqttDeserializeConnack_framed {buf : Bytes} (h : Framed buf connack) :
    ∃ rc connackRc, mqttDeserializeConnack buf = .ok (rc, connackRc) := by
  obtain ⟨header, remLen, htype, hlen, hfit, hfront⟩ := h
  have h4 : (mqttPacketEncode remLen).length ≤ 4 := mqttPacketEncode_length_le hlen
  have hsplit := List.take_append_drop (1 + (mqttPacketEncode remLen).length) buf
  rw [hfront] at hsplit
  have hload : load buf 0 = .ok header := by
    rw [← hsplit]
    rfl
  have hdrop : buf.drop (1 + 0) = mqttPacketEncode remLen ++
      buf.drop (1 + (mqttPacketEncode remLen).length) := drop_add_one (i := 0) hsplit.symm
  have hdecode : mqttPacketDecodeBuf buf 1 =
      .ok (0 + (mqttPacketEncode remLen).length, 0 + remLen * 1) :=
    mqttPacketDecode_lengthBytes (mqttPacketEncode_lengthBytes remLen) h4 hdrop
  rw [Nat.zero_add, Nat.zero_add, Nat.mul_one] at hdecode
  rw [mqttDeserializeConnack, hload, ok_bind, if_neg (not_not_intro htype), hdecode, ok_bind]
  dsimp only
  split
  next => exact ⟨_, _, rfl⟩
  next hroom =>
    rw [load_of_lt (show 1 + (mqttPacketEncode remLen).length < buf.length by omega), ok_bind,
      load_of_lt (show 1 + (mqttPacketEncode remLen).length + 1 < buf.length by omega), ok_bind]
    exact ⟨_, _, rfl⟩

/-- `iotx_mc_handle_recv_CONNACK` succeeds for the code of acceptance alone. -/
theorem iotxMcHandleRecvConnack_eq {buf : Bytes} {rc : Nat} {connackRc : UInt8}
    (h : mqttDeserializeConnack buf = .ok (rc, connackRc)) :
    ∃ rc', iotxMcHandleRecvConnack buf = .ok rc' ∧
      (rc' = successReturn ↔ rc = 1 ∧ connackRc = 0) := by
  rw [iotxMcHandleRecvConnack, h, ok_bind]
  dsimp only
  split
  next hbad =>
    exact ⟨_, rfl, fun hrc => absurd hrc (by decide), fun hgood => absurd hgood.1 hbad⟩
  next hgood =>
    refine ⟨_, rfl, ?_⟩
    have hone : rc = 1 := not_not.mp hgood
    have hcode : connackRc = 0 ↔ connackRc.toNat = 0 :=
      ⟨fun hzero => by rw [hzero]; rfl, fun hzero => UInt8.toNat_inj.mp hzero⟩
    rw [hcode]
    by_cases hzero : connackRc.toNat = 0
    · rw [hzero]
      exact ⟨fun _ => ⟨hone, rfl⟩, fun _ => rfl⟩
    · refine ⟨fun hrc => ?_, fun h => absurd h.2 hzero⟩
      split at hrc
      next hcase => exact absurd hcase hzero
      all_goals exact absurd hrc (by decide)

/-- The wait ends, whatever the broker sends. -/
theorem waitLoop_total (left : Nat) {buf : Bytes} {packetType : Nat} {w : World}
    (h5 : 5 ≤ buf.length) (htype : packetType ≠ connack) :
    ∃ r, waitLoop left buf packetType w = .ok r := by
  induction left generalizing buf packetType w with
  | zero =>
      obtain ⟨r, hread, -⟩ := iotxMcReadPacket_total packetType w h5
      rw [waitLoop, hread, ok_bind]
      split
      next => exact ⟨_, rfl⟩
      next => exact ⟨_, rfl⟩
  | succ left ih =>
      obtain ⟨r, hread, hsame, hframed⟩ := iotxMcReadPacket_total packetType w h5
      rw [waitLoop, hread, ok_bind]
      split
      next => exact ⟨_, rfl⟩
      next hrc =>
        dsimp only
        split
        next hconnack =>
          have hframe : Framed r.bufRead connack := by
            rcases hframed (not_not.mp hrc) with hzero | hold | hframe
            · exact absurd (hzero.symm.trans hconnack) zero_ne_connack
            · exact absurd (hold.symm.trans hconnack) htype
            · exact hconnack ▸ hframe
          obtain ⟨rc, connackRc, hack⟩ := mqttDeserializeConnack_framed hframe
          obtain ⟨rc', hrecv, -⟩ := iotxMcHandleRecvConnack_eq hack
          exact ⟨_, by rw [hrecv, ok_bind]⟩
        next hother => exact ih (hsame.symm ▸ h5) hother

/-- The wait succeeds exactly where it meets an accepting CONNACK. -/
theorem waitLoop_success_iff {left : Nat} {buf : Bytes} {packetType : Nat} {w : World}
    {res : WaitResult} (hrun : waitLoop left buf packetType w = .ok res) :
    res.rc = successReturn ↔ Accepted left buf packetType w := by
  induction left generalizing buf packetType w with
  | zero =>
      rw [waitLoop] at hrun
      obtain ⟨r, -, hrun⟩ := bind_eq_ok.mp hrun
      refine ⟨fun hrc => ?_, nofun⟩
      split at hrun
      all_goals
        cases hrun
        exact absurd hrc mqttNetworkError_ne_success
  | succ left ih =>
      rw [waitLoop] at hrun
      obtain ⟨r, hread, hrun⟩ := bind_eq_ok.mp hrun
      have hsame : ∀ {r'}, iotxMcReadPacket buf packetType w = .ok r' → r' = r :=
        fun hread' => Except.ok.inj (hread'.symm.trans hread)
      split at hrun
      next hfail =>
        cases hrun
        refine ⟨fun hrc => absurd hrc mqttNetworkError_ne_success, fun hacc => ?_⟩
        cases hacc with
        | now hread' hrc _ _ => exact absurd (hsame hread' ▸ hrc) hfail
        | later hread' hrc _ _ => exact absurd (hsame hread' ▸ hrc) hfail
      next hok =>
        have hrc := not_not.mp hok
        dsimp only at hrun
        split at hrun
        next hconnack =>
          obtain ⟨rc, hrecv, hrun⟩ := bind_eq_ok.mp hrun
          cases hrun
          obtain ⟨⟨rc', connackRc⟩, hack, -⟩ := bind_eq_ok.mp hrecv
          obtain ⟨rc'', hrecv', hsuccess⟩ := iotxMcHandleRecvConnack_eq hack
          obtain rfl := Except.ok.inj (hrecv'.symm.trans hrecv)
          refine hsuccess.trans ⟨?_, fun hacc => ?_⟩
          · rintro ⟨rfl, rfl⟩
            exact .now hread hrc hconnack hack
          · cases hacc with
            | now hread' _ _ hack' =>
                obtain rfl := hsame hread'
                cases hack.symm.trans hack'
                exact ⟨rfl, rfl⟩
            | later hread' _ hother _ => exact absurd (hsame hread' ▸ hconnack) hother
        next hother =>
          refine (ih hrun).trans ⟨.later hread hrc hother, fun hacc => ?_⟩
          cases hacc with
          | now hread' _ hconnack _ => exact absurd (hsame hread' ▸ hconnack) hother
          | later hread' _ _ hrest => exact hsame hread' ▸ hrest

/-! ## The packets of the client -/

theorem protocol_length (version : MqttVersion) :
    (protocol version).length + 3 = match version with
      | .v31 => 12
      | .v311 => 10 := by
  cases version with
  | v31 => rfl
  | v311 => rfl

theorem writeMqttString_length (s : Option Bytes) :
    (writeMqttString s).length = mqttStrlen s + 2 := by
  rw [writeMqttString, List.length_append, be16_length, mqttStrlen, Nat.add_comm]

theorem writeOptional_length (s : Option Bytes) :
    (writeOptional s).length = if s.isSome then mqttStrlen s + 2 else 0 := by
  rw [writeOptional]
  split
  next => exact writeMqttString_length s
  next => rfl

theorem connectPacket_length (options : ConnectData) :
    (connectPacket options).length =
      1 + (mqttPacketEncode (mqttSerializeConnectLength options)).length +
        mqttSerializeConnectLength options := by
  have hwill : (if options.willFlag then
      writeMqttString options.will.topicName ++ writeMqttString options.will.message
      else []).length = if options.willFlag then
        mqttStrlen options.will.topicName + 2 + (mqttStrlen options.will.message + 2) else 0 := by
    split
    next => rw [List.length_append, writeMqttString_length, writeMqttString_length]
    next => rfl
  rw [connectPacket, List.length_cons]
  generalize hencode : mqttPacketEncode (mqttSerializeConnectLength options) = encoded
  simp only [List.length_append, hwill, writeMqttString_length, writeOptional_length,
    be16_length, List.length_singleton]
  rw [mqttSerializeConnectLength, ← protocol_length]
  omega

/-- What a sender of a packet in the send buffer leaves of the client. -/
structure SendsOnly (c c' : McClient) : Prop where
  state : c'.clientState = c.clientState
  probes : c'.keepaliveProbes = c.keepaliveProbes
  bufRead : c'.bufRead = c.bufRead
  bufSend : c'.bufSend.length = c.bufSend.length

theorem mqttConnect_sendsOnly {c c' : McClient} {connectData : ConnectData} {writes : List Int}
    {rc : Int} (hrun : mqttConnect c connectData writes = .ok (rc, c')) : SendsOnly c c' := by
  obtain ⟨⟨len, bufSend⟩, hser, hrun⟩ := bind_eq_ok.mp hrun
  have hsame := stored_length hser
  dsimp only at hrun
  split at hrun
  · cases hrun
    exact ⟨rfl, rfl, rfl, hsame⟩
  · obtain ⟨res, -, hrun⟩ := bind_eq_ok.mp hrun
    cases hrun
    exact ⟨rfl, rfl, rfl, hsame⟩

theorem mqttConnect_total (c : McClient) {connectData : ConnectData} {writes : List Int}
    (hlen : mqttSerializeConnectLength connectData < 128 ^ 4)
    (hwrites : WritesInside c.bufSend.length (connectPacket connectData).length writes 0) :
    ∃ res, mqttConnect c connectData writes = .ok res := by
  obtain ⟨⟨len, bufSend⟩, hser⟩ : ∃ res, mqttSerializeConnect c.bufSend connectData = .ok res :=
    stored_ok (connectPacket_length connectData) hlen
  have hsame := stored_length hser
  rw [mqttConnect, hser, ok_bind]
  dsimp only
  split
  next => exact ⟨_, rfl⟩
  next hpos =>
    obtain ⟨rfl, -, -⟩ := stored_packet hser (Int.not_le.mp hpos)
    rw [← hsame] at hwrites
    obtain ⟨res, hsend⟩ := iotxMcSendPacket_inside.mpr hwrites
    exact ⟨_, by rw [Int.toNat_natCast, hsend, ok_bind]⟩

theorem mqttSerializeZero_total (buf : Bytes) (packettype : Nat) :
    ∃ len bufSend, mqttSerializeZero buf packettype = .ok (len, bufSend) ∧
      (0 < len → len = 2) := by
  rw [mqttSerializeZero]
  split
  next => exact ⟨_, _, rfl, fun hpos => absurd hpos (by decide)⟩
  next hroom =>
    have hpacket : (UInt8.ofNat (16 * packettype) :: mqttPacketEncode 0).length = 2 := by
      rw [List.length_cons, mqttPacketEncode]
      rfl
    have hstore : storeN buf 0 (UInt8.ofNat (16 * packettype) :: mqttPacketEncode 0) = .ok _ :=
      storeN_of_le (show 0 + _ ≤ buf.length by omega)
    dsimp only
    rw [hstore, ok_bind, hpacket]
    exact ⟨_, _, rfl, fun _ => rfl⟩

theorem mqttDisconnect_sendsOnly {c c' : McClient} {writes : List Int} {rc : Int}
    (hrun : mqttDisconnect c writes = .ok (rc, c')) : SendsOnly c c' := by
  obtain ⟨⟨len, bufSend⟩, hser, hrun⟩ := bind_eq_ok.mp hrun
  have hsame := stored_length hser
  dsimp only at hrun
  split at hrun
  · obtain ⟨res, -, hrun⟩ := bind_eq_ok.mp hrun
    cases hrun
    exact ⟨rfl, rfl, rfl, hsame⟩
  · cases hrun
    exact ⟨rfl, rfl, rfl, hsame⟩

theorem mqttDisconnect_total (c : McClient) {writes : List Int}
    (hwrites : WritesInside c.bufSend.length 2 writes 0) :
    ∃ res, mqttDisconnect c writes = .ok res := by
  obtain ⟨len, bufSend, hser, htwo⟩ := mqttSerializeZero_total c.bufSend disconnect
  have hsame := stored_length hser
  rw [mqttDisconnect, hser, ok_bind]
  dsimp only
  split
  next hpos =>
    obtain rfl := htwo hpos
    rw [← hsame] at hwrites
    obtain ⟨res, hsend⟩ := iotxMcSendPacket_inside.mpr hwrites
    exact ⟨_, by rw [show Int.toNat 2 = 2 from rfl, hsend, ok_bind]⟩
  next => exact ⟨_, rfl⟩

/-! ## All or nothing -/

section Connecting

variable {c : McClient} {connectData : ConnectData} {env : ConnectEnv} {r : ConnectResult}

theorem hookFails_iff {hook : Option Int} : hookFails hook = true ↔ ¬HookOk hook := by
  cases hook with
  | none => simp [hookFails, HookOk]
  | some rc => simp [hookFails, HookOk]

theorem hookOk_of_not_fails {hook : Option Int} (h : ¬hookFails hook = true) : HookOk hook :=
  not_not.mp fun hnot => h (hookFails_iff.mpr hnot)

/-- What a call of `iotx_mc_connect` can do. -/
inductive ConnectCases (c : McClient) (connectData : ConnectData) (env : ConnectEnv)
    (r : ConnectResult) : Prop where
  /-- It fails before the state is set. -/
  | failed : ¬(HookOk env.preAuth ∧ Received c connectData env) → r.rc ≠ successReturn →
      r.client.clientState = c.clientState → isOpen r.transport = false →
      ConnectCases c connectData env r
  /-- The state is set. -/
  | established : HookOk env.preAuth → Received c connectData env →
      r.client.clientState = .connected → (r.rc = successReturn ↔ HookOk env.postAuth) →
      ConnectCases c connectData env r

/-- The wait for the CONNACK and what follows it. -/
theorem awaitConnack_cases {c₁ : McClient}
    (hsent : mqttConnect c connectData env.connectWrites = .ok (successReturn, c₁))
    (hpre : HookOk env.preAuth) (hopened : env.connected = successReturn)
    (hrun : awaitConnack c₁ env = .ok r) :
    ConnectCases c connectData env r ∧ r.client.keepaliveProbes = c.keepaliveProbes := by
  have honly := mqttConnect_sendsOnly hsent
  obtain ⟨wait, hwait, hrun⟩ := bind_eq_ok.mp hrun
  have haccepted := waitLoop_success_iff hwait
  rw [honly.bufRead] at haccepted
  dsimp only at hrun
  split at hrun
  next hfail =>
    obtain ⟨⟨rc, c₂⟩, hdisconnect, hrun⟩ := bind_eq_ok.mp hrun
    cases hrun
    have honly₂ := mqttDisconnect_sendsOnly hdisconnect
    exact ⟨.failed (fun h => hfail (haccepted.mpr h.2.accepted)) mqttConnectError_ne_success
      (honly₂.state.trans honly.state) rfl, honly₂.probes.trans honly.probes⟩
  next hok =>
    have hreceived : Received c connectData env :=
      ⟨hopened, ⟨c₁, hsent⟩, haccepted.mp (not_not.mp hok)⟩
    split at hrun
    next hpost =>
      cases hrun
      have hpost' : failReturn = successReturn ↔ HookOk env.postAuth :=
        ⟨fun h => absurd h failReturn_ne_success, fun h => absurd h (hookFails_iff.mp hpost)⟩
      exact ⟨.established hpre hreceived rfl hpost', honly.probes⟩
    next hpost =>
      cases hrun
      exact ⟨.established hpre hreceived rfl ⟨fun _ => hookOk_of_not_fails hpost, fun _ => rfl⟩,
        honly.probes⟩

theorem iotxMcConnect_cases (hrun : iotxMcConnect c connectData env = .ok r) :
    ConnectCases c connectData env r ∧ r.client.keepaliveProbes = c.keepaliveProbes := by
  rw [iotxMcConnect] at hrun
  split at hrun
  next hpre =>
    cases hrun
    exact ⟨.failed (fun h => hookFails_iff.mp hpre h.1) failReturn_ne_success rfl rfl, rfl⟩
  next hpre =>
  split at hrun
  next hclosed =>
    cases hrun
    refine ⟨.failed (fun h => hclosed h.2.opened) ?_ rfl rfl, rfl⟩
    dsimp only
    split
    next => decide
    next => decide
  next hopened =>
    obtain ⟨⟨rc, c₁⟩, hsend, hrun⟩ := bind_eq_ok.mp hrun
    have honly := mqttConnect_sendsOnly hsend
    dsimp only at hrun
    split at hrun
    next hfail =>
      cases hrun
      refine ⟨.failed (fun h => ?_) hfail honly.state rfl, honly.probes⟩
      obtain ⟨c', hsent⟩ := h.2.sent
      cases hsend.symm.trans hsent
      exact hfail rfl
    next hok =>
      obtain rfl : rc = successReturn := not_not.mp hok
      exact awaitConnack_cases hsend (hookOk_of_not_fails hpre) (not_not.mp hopened) hrun

theorem allOrNothing_of_ok (hstate : c.clientState ≠ .connected)
    (hrun : iotxMcConnect c connectData env = .ok r) :
    AllOrNothing c connectData env r ↔ PostAuthSafe c connectData env := by
  cases (iotxMcConnect_cases hrun).1 with
  | failed hnot hrc hsame hclosed =>
      refine ⟨fun _ hpre hreceived => absurd ⟨hpre, hreceived⟩ hnot, fun _ => ⟨?_, ?_⟩⟩
      · exact ⟨fun h => absurd h hrc, fun h => absurd ⟨h.2.2.1, h.2.1⟩ hnot⟩
      · exact fun _ => ⟨hsame, hclosed⟩
  | established hpre hreceived hconnected hpost =>
      refine ⟨fun h _ _ => ?_, fun h => ?_⟩
      · by_contra hnot
        have hkept := h.failure fun hrc => hnot (hpost.mp hrc)
        exact hstate (hkept.1.symm.trans hconnected)
      · have hok := h hpre hreceived
        exact ⟨⟨fun _ => ⟨hconnected, hreceived, hpre, hok⟩, fun _ => hpost.mpr hok⟩,
          fun hrc => absurd (hpost.mpr hok) hrc⟩

/-- A call has no meaning only where it is `Outside`. -/
theorem iotxMcConnect_total (hin : ¬Outside c connectData env) :
    ∃ r, iotxMcConnect c connectData env = .ok r := by
  simp only [Outside, not_or, Nat.not_lt, Nat.not_le, not_not] at hin
  obtain ⟨h5, hlen, hconnect, hdisconnect⟩ := hin
  rw [iotxMcConnect]
  split
  next => exact ⟨_, rfl⟩
  next =>
  split
  next => exact ⟨_, rfl⟩
  next =>
    obtain ⟨⟨rc, c₁⟩, hsend⟩ := mqttConnect_total c hlen hconnect
    have honly := mqttConnect_sendsOnly hsend
    rw [hsend, ok_bind]
    dsimp only
    split
    next => exact ⟨_, rfl⟩
    next =>
      obtain ⟨wait, hwait⟩ := @waitLoop_total waitConnackMax c₁.bufRead 0 env.world
        (honly.bufRead.symm ▸ h5) zero_ne_connack
      rw [awaitConnack, iotxMcWaitConnack, hwait, ok_bind]
      dsimp only
      split
      next =>
        obtain ⟨res, hdown⟩ := mqttDisconnect_total { c₁ with bufRead := wait.bufRead }
          (honly.bufSend.symm ▸ hdisconnect)
        exact ⟨_, by rw [hdown, ok_bind]⟩
      next =>
        split
        next => exact ⟨_, rfl⟩
        next => exact ⟨_, rfl⟩

/-- From every state but connected, a call is all or nothing exactly where the hook after the
authentication does not fail behind an accepting CONNACK. -/
theorem iotxMcConnect_allOrNothing_iff (hstate : c.clientState ≠ .connected) :
    (∃ r, iotxMcConnect c connectData env = .ok r ∧
      (AllOrNothing c connectData env r ↔ PostAuthSafe c connectData env)) ∨
    (∃ e, iotxMcConnect c connectData env = .error e) ∧ Outside c connectData env := by
  cases hrun : iotxMcConnect c connectData env with
  | ok r => exact Or.inl ⟨r, rfl, allOrNothing_of_ok hstate hrun⟩
  | error e =>
      refine Or.inr ⟨⟨e, rfl⟩, ?_⟩
      by_contra hin
      obtain ⟨r, hok⟩ := iotxMcConnect_total hin
      cases hrun.symm.trans hok

end Connecting

/-- A client that was not connected yet. -/
def newClient : McClient where
  packetId := 0
  keepaliveProbes := 0
  bufSend := List.replicate 32 0
  bufRead := List.replicate 8 0
  subHandle := Vector.replicate _ .zero
  pingMark := 0
  clientState := .initialized
  listPubWaitAck := []
  handleEvent := ⟨none, 0⟩

/-- The parameters of a device, as `iotx_mc_init` fills them in. -/
def device : ConnectData where
  mqttVersion := .v311
  clientID := some [100]
  keepAliveInterval := 60
  cleansession := 1
  willFlag := false
  will := ⟨none, none, 0, 0⟩
  username := some [117]
  password := some [112]

/-- The broker accepts the connection. -/
def accepting (postAuth : Option Int) : ConnectEnv where
  preAuth := some successReturn
  connected := successReturn
  connectWrites := [21]
  world := ⟨[0x20, 2, 0, 0], [], []⟩
  disconnectWrites := []
  postAuth := postAuth

/-- A connection that succeeds. -/
theorem iotxMcConnect_allOrNothing_accepted :
    ∃ r, iotxMcConnect newClient device (accepting (some successReturn)) = .ok r ∧
      r.rc = successReturn ∧
      AllOrNothing newClient device (accepting (some successReturn)) r := by
  have hrc : (iotxMcConnect newClient device (accepting (some successReturn))).map
      (fun r => r.rc) = .ok successReturn := by decide +kernel
  have hsafe : PostAuthSafe newClient device (accepting (some successReturn)) :=
    fun _ _ => Or.inr rfl
  have hstate : newClient.clientState ≠ .connected := by decide
  have hends := @iotxMcConnect_allOrNothing_iff newClient device
    (accepting (some successReturn)) hstate
  obtain ⟨r, hrun, hiff⟩ | ⟨⟨e, he⟩, -⟩ := hends
  · rw [hrun] at hrc
    exact ⟨r, hrun, Except.ok.inj hrc, hiff.mpr hsafe⟩
  · rw [he] at hrc
    cases hrc

/-- The keys cannot be made after the CONNACK: the call fails and leaves a connected client. -/
theorem not_iotxMcConnect_allOrNothing :
    ¬∀ (c : McClient) (connectData : ConnectData) (env : ConnectEnv) (r : ConnectResult),
      c.clientState ≠ .connected → iotxMcConnect c connectData env = .ok r →
        AllOrNothing c connectData env r := by
  intro h
  have hvalues : (iotxMcConnect newClient device (accepting (some failReturn))).map
      (fun r => (r.rc, r.client.clientState)) = .ok (failReturn, .connected) := by
    decide +kernel
  cases hrun : iotxMcConnect newClient device (accepting (some failReturn)) with
  | error e =>
      rw [hrun] at hvalues
      cases hvalues
  | ok r =>
      rw [hrun] at hvalues
      obtain ⟨hrc, hstate⟩ := Prod.mk.inj (Except.ok.inj hvalues)
      have hkept := (h _ _ _ r (by decide) hrun).failure (hrc ▸ failReturn_ne_success)
      exact absurd (hstate.symm.trans hkept.1) (by decide)

end IotKit.Mqtt.Connect
